import AdbShare.ConnectionMaps

/-! Calls and their local ids. A call stays and keeps its id, and as long as the counter has not
come around, no two calls have the same one. -/
namespace AdbShare.Connection

open Transition Function

/-- A call starts with an id that no call has had. -/
def Fresh (s : State) : Label → Prop
  | .call _ (.start _) => ∀ j c, s.calls j = some c → c.localId ≠ s.nextLocal+1
  | _ => True

/-- The same call, later. -/
structure Kept (c c' : Call) : Prop where
  localId : c'.localId = c.localId
  receiving : c'.receiving = true → c.receiving = true
  numbered : c'.phase = .numbered → c.phase = .numbered

theorem Kept.refl (c : Call) : Kept c c := ⟨rfl,id,id⟩

variable {j : ℕ} {c' : Call} {s s' : State} {a : Label} {as : List Label}

section

variable {calls : ℕ → Option Call} {k : ℕ} {c d : Call}

theorem kept_update (hk : calls k = some d) (hkept : Kept d c') (hc : calls j = some c) :
    ∃ c'', update calls k (some c') j = some c'' ∧ Kept c c'' := by
  by_cases hj : j = k
  · subst hj
    cases hk.symm.trans hc
    exact ⟨c',update_self ..,hkept⟩
  · exact ⟨c,by rwa [update_of_ne hj],.refl c⟩

theorem kept_settle (l : UInt32) (slot : Slot) (hc : s.calls j = some c) :
    ∃ c', (s.settle l slot).calls j = some c' ∧ Kept c c' := by
  rw [settle_calls,hc]
  refine ⟨_,rfl,?_⟩
  split <;> exact ⟨rfl,id,id⟩

/-- Calls stay. -/
theorem steps_kept (hstep : Steps s a s') (hc : s.calls j = some c) : ∃ c', s'.calls j = some c' ∧ Kept c c' := by
  have hsettled : ∀ {k : ℕ} {d : Call} {p : Phase} (l : UInt32), s.calls k = some d → p ≠ .numbered →
      ∃ c', update (s.settle l .gone).calls k (some { d with phase := p }) j = some c' ∧ Kept c c' := by
    intro k d p l hk hp
    by_cases hj : j = k
    · subst hj
      cases hk.symm.trans hc
      exact ⟨_,update_self ..,⟨rfl,id,fun h => absurd h hp⟩⟩
    · rw [update_of_ne hj]
      exact kept_settle l .gone hc
  cases hstep with
  | start hnew halive =>
    refine ⟨c,?_,.refl c⟩
    refine (update_of_ne ?_ _ _).trans hc
    rintro rfl
    cases hnew.symm.trans hc
  | file hk hp | send hk hp hw | sendFailed hk hp hw | opened hk hp hr | refused hk hp hr | forsaken hk hp hr
    | elapse hk hp hr =>
    exact kept_update hk ⟨rfl,id,fun h => nomatch h⟩ hc
  | register hk hp | abortPending hk hp => exact hsettled _ hk (by simp)
  | abortStream hk hp | cancel hk hp => exact kept_update hk ⟨rfl,(fun h => nomatch h),fun h => nomatch h⟩ hc
  | okay hr hm | fail hr hm | clse hr hm => exact kept_settle _ _ hc
  | wrte hr hm hi | ignored hr hm hw | stop ha hr | forget hr | undelivered hr hk hrx | unfile hr
    | enqueue hr hw | enqueueFailed hr hw | writer ha hw hw' | drainStreams hw | write hk hp hw | dropConnection =>
    exact ⟨c,hc,.refl c⟩
  | deliver hr hk hrx | closerUnfile hk hp hcl | sendClose hk hp hcl hw | closeLost hk hp hcl hw =>
    exact kept_update hk ⟨rfl,id,id⟩ hc
  | drain hr =>
    dsimp only
    rw [hc,Option.map_some]
    refine ⟨_,rfl,?_⟩
    split <;> exact ⟨rfl,id,id⟩
  | read hk hp hrx => exact kept_update hk ⟨pollRead_localId ..,fun _ => hrx,fun h => pollRead_phase .. ▸ h⟩ hc
  | leave ha hk hp hrx hcl => exact kept_update hk ⟨rfl,hrx,id⟩ hc

theorem none_update (hk : calls k = some d) (hj : calls j = none) : update calls k (some c') j = none := by
  refine (update_of_ne ?_ _ _).trans hj
  rintro rfl
  cases hk.symm.trans hj

theorem none_settle (l : UInt32) (slot : Slot) (hj : s.calls j = none) : (s.settle l slot).calls j = none := by
  rw [settle_calls,hj,Option.map_none]

theorem steps_none (hstep : Steps s a s') (hj : s.calls j = none)
    (ha : ∀ dest, a ≠ .call j (.start dest)) : s'.calls j = none := by
  cases hstep with
  | @start k dest hnew halive =>
    refine (update_of_ne ?_ _ _).trans hj
    rintro rfl
    exact ha dest rfl
  | file hk hp | send hk hp hw | sendFailed hk hp hw | opened hk hp hr | refused hk hp hr | forsaken hk hp hr
    | elapse hk hp hr | abortStream hk hp | cancel hk hp | deliver hr hk hrx | read hk hp hrx
    | leave ha hk hp hrx hcl | closerUnfile hk hp hcl | sendClose hk hp hcl hw | closeLost hk hp hcl hw =>
    exact none_update hk hj
  | @register k c hk hp | @abortPending k c e hk hp =>
    obtain ⟨d,hd,-⟩ := kept_settle c.localId .gone hk
    exact none_update hd (none_settle _ _ hj)
  | okay hr hm | fail hr hm | clse hr hm => exact none_settle _ _ hj
  | drain hr =>
    dsimp only
    rw [hj,Option.map_none]
  | _ => exact hj

end

/-- No two calls have the same id. -/
def Distinct (calls : ℕ → Option Call) : Prop :=
  ∀ i j c d, calls i = some c → calls j = some d → c.localId = d.localId → i = j

/-- A call after a step is the one before it, or it has just started. -/
theorem steps_origin (hstep : Steps s a s') (hc' : s'.calls j = some c') : (∃ c, s.calls j = some c ∧ Kept c c') ∨
      s.calls j = none ∧ ∃ dest, a = .call j (.start dest) ∧ c' = { localId := s.nextLocal+1, dest := dest } := by
  obtain hj | ⟨c,hc⟩ := Option.eq_none_or_eq_some (s.calls j)
  · by_cases ha : ∃ dest, a = .call j (.start dest)
    · obtain ⟨dest,rfl⟩ := ha
      cases hstep with
      | start hnew halive =>
        obtain ⟨-,rfl⟩ | ⟨hne,-⟩ := update_some_cases hc'
        · exact Or.inr ⟨hj,dest,rfl,rfl⟩
        · exact absurd rfl hne
    · cases (steps_none hstep hj fun dest h => ha ⟨dest,h⟩).symm.trans hc'
  · obtain ⟨d,hd,hkept⟩ := steps_kept hstep hc
    cases hd.symm.trans hc'
    exact Or.inl ⟨c,hc,hkept⟩

theorem distinct_step (h : Distinct s.calls) (hf : Fresh s a) (hstep : Steps s a s') : Distinct s'.calls := by
  intro i j c' d' hi hj hid
  obtain ⟨c,hc,hkept⟩ | ⟨hi,dest,rfl,rfl⟩ := steps_origin hstep hi
  · obtain ⟨d,hd,hkept'⟩ | ⟨hj,dest,rfl,rfl⟩ := steps_origin hstep hj
    · exact h i j c d hc hd (hkept.localId.symm.trans (hid.trans hkept'.localId))
    · exact absurd (hkept.localId.symm.trans hid) (hf i c hc)
  · obtain ⟨d,hd,hkept'⟩ | ⟨hj,dest',ha,-⟩ := steps_origin hstep hj
    · exact absurd (hkept'.localId.symm.trans hid.symm) (hf j d hd)
    · cases ha
      rfl

theorem distinct_run (h : exec step {} as = some s) (hf : Meets step Fresh {} as) : Distinct s.calls := by
  refine exec_invariant_of_meets (fun _ _ _ hd hfresh hstep => distinct_step hd hfresh (step_steps hstep)) ?_ hf h
  intro _ _ _ _ hc
  cases hc

def startsNone : Label → Bool
  | .call _ (.start _) => false
  | _ => true

theorem fresh_of_startsNone (s : State) (a : Label) (h : startsNone a) : Fresh s a := by
  unfold Fresh
  split
  · cases h
  · trivial

/-- As long as no id comes around again, an id that stands in one of the tables leads to the call that has it. -/
theorem frames_find_their_call (as : List Label) (s : State) (h : exec step {} as = some s) (hf : Meets step Fresh {} as)
    (l : UInt32) (i : ℕ) (hl : s.pending l = some i ∨ s.streams l = some i) :
    ∃ c, s.calls i = some c ∧ c.localId = l ∧ ∀ j d, s.calls j = some d → d.localId = l → j = i := by
  have hm := maps_run h
  rcases hl.imp (hm.pending_call l i) (hm.stream_call l i) with ⟨c,hc,hid,-⟩ | ⟨c,hc,hid,-⟩
  all_goals exact ⟨c,hc,hid,fun j d hd hdl => distinct_run h hf j i d c hd hc (hdl.trans hid.symm)⟩

/-- Two calls, and a frame for each. -/
def twoCalls : List Label :=
  [.call 0 (.start []),.call 0 .file,.call 0 .register,.call 0 .send,.call 1 (.start []),.call 1 .file,.call 1 .register,
   .call 1 .send,.reader (.frame ⟨.okay,8,3,[]⟩),.call 1 .take,.reader (.frame ⟨.okay,7,2,[]⟩),.call 0 .take]

/-- Each frame has come to the call that waited for it. -/
theorem frames_find_their_call_filed : ∃ s, exec step {} twoCalls = some s ∧
    (∃ c d, s.calls 0 = some c ∧ c.phase = .opened 7 ∧ s.calls 1 = some d ∧ d.phase = .opened 8) ∧
      (∀ j d, s.calls j = some d → d.localId = 2 → j = 0) ∧ ∀ j d, s.calls j = some d → d.localId = 3 → j = 1 := by
  have hf : Meets step Fresh {} twoCalls := by
    refine meets_cons rfl (fun _ _ hc => by cases hc) ?_
    iterate 3 refine meets_cons rfl trivial ?_
    refine meets_cons rfl ?_ (meets_of_check fresh_of_startsNone rfl)
    intro j c hc
    by_cases hj : j = 0
    · subst hj
      cases hc
      decide
    · simp [State.setCall,State.pushed,State.settle,hj] at hc
  obtain ⟨c,-,-,hall⟩ := frames_find_their_call _ _ rfl hf 2 0 (.inr rfl)
  obtain ⟨d,-,-,hall'⟩ := frames_find_their_call _ _ rfl hf 3 1 (.inr rfl)
  exact ⟨_,rfl,⟨_,_,rfl,rfl,rfl,rfl⟩,hall,hall'⟩

end AdbShare.Connection
