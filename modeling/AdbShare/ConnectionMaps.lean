import AdbShare.Connection

/-! What the two maps of a connection hold: the reply channels of calls that wait for an answer
and the data channels of calls and streams, each under the id of its call. -/
namespace AdbShare.Connection

open Transition Function Option

/-- The call may have its reply channel in the map. -/
def Phase.asks : Phase → Prop
  | .registered | .waiting | .aborting _ | .cancelled => True
  | _ => False

/-- The call may have its data channel in the map. -/
def Phase.files : Phase → Prop
  | .numbered | .failed _ => False
  | _ => True

/-- The reply channel has not been handed out yet. -/
def Phase.early : Phase → Prop
  | .numbered | .filed => True
  | _ => False

/-- The call counts on its reply channel. -/
def Phase.listens : Phase → Prop
  | .registered | .waiting => True
  | _ => False

/-- The call has not returned yet. -/
def Phase.inProgress : Phase → Prop
  | .failed _ | .opened _ | .cancelled => False
  | _ => True

/-- The device has said yes. -/
def Slot.accepts : Slot → Prop
  | .sent (.ok _) => True
  | _ => False

structure Maps (calls : ℕ → Option Call) (pending streams : UInt32 → Option ℕ) : Prop where
  pending_call : ∀ l i, pending l = some i →
    ∃ c, calls i = some c ∧ c.localId = l ∧ c.reply = .empty ∧ c.phase.asks
  pending_of_empty : ∀ i c, calls i = some c → c.phase.listens → c.reply = .empty → pending c.localId = some i
  stream_call : ∀ l i, streams l = some i → ∃ c, calls i = some c ∧ c.localId = l ∧ c.phase.files
  early_empty : ∀ i c, calls i = some c → c.phase.early → c.reply = .empty

variable {calls : ℕ → Option Call} {i : ℕ} {c c' : Call} {P : Call → Prop} {s s' : State} {a : Label}
  {as : List Label}

section

variable {pending streams : UInt32 → Option ℕ} {j : ℕ} {d : Call}

theorem update_some_cases (h : update calls i (some c) j = some d) : j = i ∧ d = c ∨ j ≠ i ∧ calls j = some d := by
  by_cases hj : j = i
  · subst hj
    rw [update_self] at h
    exact Or.inl ⟨rfl,(some.inj h).symm⟩
  · rw [update_of_ne hj] at h
    exact Or.inr ⟨hj,h⟩

theorem update_to (h : ∀ d, calls j = some d → P d) (hself : i = j → P c) :
    ∀ d, update calls i (some c) j = some d → P d := by
  intro d hd
  obtain ⟨rfl,rfl⟩ | ⟨-,hd⟩ := update_some_cases hd
  · exact hself rfl
  · exact h d hd

section

variable (h : Maps calls pending streams) {streams' pending' : UInt32 → Option ℕ} {l l' : UInt32} {p : Phase}
  {calls' : ℕ → Option Call}
include h

/-- A call that starts has nothing in the maps. -/
theorem Maps.start (hnew : calls i = none) (hp : c.phase = .numbered)
    (hr : c.reply = .empty) : Maps (update calls i (some c)) pending streams := by
  have hother : ∀ j d, calls j = some d → update calls i (some c) j = some d := by
    intro j d hj
    rw [update_of_ne]
    · exact hj
    · rintro rfl
      cases hnew.symm.trans hj
  constructor
  · intro l j hj
    obtain ⟨d,hd,hrest⟩ := h.pending_call l j hj
    exact ⟨d,hother j d hd,hrest⟩
  · refine fun j => update_to (h.pending_of_empty j) fun _ hl => ?_
    rw [hp] at hl
    exact hl.elim
  · intro l j hj
    obtain ⟨d,hd,hrest⟩ := h.stream_call l j hj
    exact ⟨d,hother j d hd,hrest⟩
  · exact fun j => update_to (h.early_empty j) fun _ _ => hr

theorem Maps.move (hc : calls i = some c) (hid : c'.localId = c.localId)
    (hask : pending c.localId = some i → c'.reply = .empty ∧ c'.phase.asks)
    (hlisten : c'.phase.listens → c'.reply = .empty → pending c.localId = some i)
    (hfile : streams c.localId = some i → c'.phase.files) (hearly : c'.phase.early → c'.reply = .empty) :
    Maps (update calls i (some c')) pending streams := by
  have hother : ∀ j d, j ≠ i → calls j = some d → update calls i (some c') j = some d := by
    intro j d hj hd
    rwa [update_of_ne hj]
  constructor
  · intro l j hj
    obtain ⟨d,hd,hl,hrest⟩ := h.pending_call l j hj
    by_cases hji : j = i
    · subst hji
      cases hc.symm.trans hd
      exact ⟨c',update_self ..,hid.trans hl,hask (hl ▸ hj)⟩
    · exact ⟨d,hother j d hji hd,hl,hrest⟩
  · refine fun j => update_to (h.pending_of_empty j) ?_
    rintro rfl hl he
    rw [hid]
    exact hlisten hl he
  · intro l j hj
    obtain ⟨d,hd,hl,hrest⟩ := h.stream_call l j hj
    by_cases hji : j = i
    · subst hji
      cases hc.symm.trans hd
      exact ⟨c',update_self ..,hid.trans hl,hfile (hl ▸ hj)⟩
    · exact ⟨d,hother j d hji hd,hl,hrest⟩
  · exact fun j => update_to (h.early_empty j) fun _ => hearly

theorem Maps.unfile (hs : ∀ l j, streams' l = some j → streams l = some j) : Maps calls pending streams' :=
  ⟨h.pending_call,h.pending_of_empty,fun l j hj => h.stream_call l j (hs l j hj),h.early_empty⟩

omit h in
theorem unfile_cases (h : update streams l none l' = some j) : streams l' = some j ∧ l' ≠ l := by
  by_cases hl : l' = l
  · subst hl
    rw [update_self] at h
    cases h
  · rw [update_of_ne hl] at h
    exact ⟨h,hl⟩

theorem Maps.file (hc : calls i = some c) (hf : c.phase.files) :
    Maps calls pending (update streams c.localId (some i)) := by
  refine ⟨h.pending_call,h.pending_of_empty,?_,h.early_empty⟩
  intro l j hj
  by_cases hl : l = c.localId
  · subst hl
    rw [update_self] at hj
    cases some.inj hj
    exact ⟨c,hc,rfl,hf⟩
  · rw [update_of_ne hl] at hj
    exact h.stream_call l j hj

omit h in
theorem not_early_of_asks (h : p.asks) : ¬p.early := by
  cases p <;> first | exact h.elim | exact not_false

/-- Some reply channels are taken out of the map, each used for an answer or dropped. -/
theorem Maps.answer (hit : ℕ → Prop) [DecidablePred hit] (slot : Slot) (hslot : slot ≠ .empty)
    (hcalls : ∀ j, calls' j = (calls j).map fun c => if hit j then { c with reply := slot } else c)
    (hpending : ∀ l j, pending' l = some j ↔ pending l = some j ∧ ¬hit j)
    (hhit : ∀ j, hit j → ∃ l, pending l = some j) : Maps calls' pending' streams := by
  have hmiss : ∀ j c, calls j = some c → ¬hit j → calls' j = some c := by
    intro j c hc hj
    rw [hcalls,hc,map_some,if_neg hj]
  constructor
  · intro l j hj
    obtain ⟨hj,hnot⟩ := (hpending l j).mp hj
    obtain ⟨c,hc,hrest⟩ := h.pending_call l j hj
    exact ⟨c,hmiss j c hc hnot,hrest⟩
  · intro j d hd hlisten hempty
    rw [hcalls] at hd
    obtain ⟨c,hc,rfl⟩ := map_eq_some_iff.mp hd
    split at hempty
    · exact absurd hempty hslot
    · rename_i hnot
      rw [if_neg hnot] at hlisten ⊢
      exact (hpending _ _).mpr ⟨h.pending_of_empty j c hc hlisten hempty,hnot⟩
  · intro l j hj
    obtain ⟨c,hc,hl,hf⟩ := h.stream_call l j hj
    refine ⟨_,by rw [hcalls,hc,map_some],?_,?_⟩
    · split <;> exact hl
    · split <;> exact hf
  · intro j d hd he
    rw [hcalls] at hd
    obtain ⟨c,hc,rfl⟩ := map_eq_some_iff.mp hd
    split
    · rename_i hj
      rw [if_pos hj] at he
      obtain ⟨l,hl⟩ := hhit j hj
      obtain ⟨d,hd,-,-,hasks⟩ := h.pending_call l j hl
      cases hc.symm.trans hd
      exact absurd he (not_early_of_asks hasks)
    · rename_i hj
      rw [if_neg hj] at he
      exact h.early_empty j c hc he

theorem Maps.pending_unique (hl : pending l = some i) (hl' : pending l' = some i) : l = l' := by
  obtain ⟨c,hc,rfl,-⟩ := h.pending_call l i hl
  obtain ⟨d,hd,rfl,-⟩ := h.pending_call l' i hl'
  cases hc.symm.trans hd
  rfl

theorem Maps.asked (hc : calls i = some c) (hp : pending c.localId = some i) : c.reply = .empty ∧ c.phase.asks := by
  obtain ⟨d,hd,-,hrest⟩ := h.pending_call _ i hp
  cases hc.symm.trans hd
  exact hrest

theorem Maps.touch (hc : calls i = some c) (hid : c'.localId = c.localId)
    (hp : c'.phase = c.phase) (hr : c'.reply = c.reply) : Maps (update calls i (some c')) pending streams := by
  refine h.move hc hid ?_ ?_ ?_ ?_
  · intro hpend
    rw [hp,hr]
    exact h.asked hc hpend
  · rw [hp,hr]
    exact h.pending_of_empty i c hc
  · intro hstream
    obtain ⟨d,hd,-,hf⟩ := h.stream_call _ i hstream
    cases hc.symm.trans hd
    rwa [hp]
  · rw [hp,hr]
    exact h.early_empty i c hc

theorem Maps.register (hc : calls i = some c) (hp : c.phase = .filed) (hfree : pending c.localId = none) :
    Maps (update calls i (some { c with phase := .registered })) (update pending c.localId (some i)) streams := by
  have hempty : c.reply = .empty := h.early_empty i c hc (hp ▸ trivial)
  have hm : Maps (update calls i (some { c with phase := .aborted .disconnected })) pending streams :=
    h.move hc rfl (fun hpend => nomatch hfree.symm.trans hpend) (fun hl => hl.elim) (fun _ => trivial) (fun he => he.elim)
  constructor
  · intro l j hj
    by_cases hl : l = c.localId
    · subst hl
      rw [update_self] at hj
      cases some.inj hj
      exact ⟨_,update_self ..,rfl,hempty,trivial⟩
    · rw [update_of_ne hl] at hj
      obtain ⟨d,hd,hdl,hrest⟩ := h.pending_call l j hj
      refine ⟨d,?_,hdl,hrest⟩
      rw [update_of_ne]
      · exact hd
      · rintro rfl
        cases hc.symm.trans hd
        exact hl hdl.symm
  · intro j d hd hlisten he
    obtain ⟨rfl,rfl⟩ | ⟨hj,hd⟩ := update_some_cases hd
    · exact update_self ..
    have hpend := h.pending_of_empty j d hd hlisten he
    rw [update_of_ne]
    · exact hpend
    · intro hl
      rw [hl,hfree] at hpend
      cases hpend
  · intro l j hj
    obtain ⟨d,hd,hl,hf⟩ := hm.stream_call l j hj
    rcases update_some_cases hd with ⟨rfl,rfl⟩ | ⟨hj,hd⟩
    · exact ⟨_,update_self ..,hl,trivial⟩
    · exact ⟨d,by rwa [update_of_ne hj],hl,hf⟩
  · exact fun j => update_to (h.early_empty j) fun _ he => he.elim

end

end

theorem pollRead_frame (c : Call) (b : Bool) (room : ℕ) : ∃ queue incoming returned,
    (pollRead c b room).2 = { c with queue := queue, incoming := incoming, returned := returned } := by
  unfold pollRead
  split
  · exact ⟨_,_,_,rfl⟩
  split
  · exact ⟨_,_,_,rfl⟩
  · split
    · exact ⟨_,_,_,rfl⟩
    · split <;> exact ⟨_,_,_,rfl⟩

@[simp] theorem pollRead_localId (c : Call) (b : Bool) (room : ℕ) : (pollRead c b room).2.localId = c.localId := by
  obtain ⟨_,_,_,h⟩ := pollRead_frame c b room
  rw [h]

@[simp] theorem pollRead_phase (c : Call) (b : Bool) (room : ℕ) : (pollRead c b room).2.phase = c.phase := by
  obtain ⟨_,_,_,h⟩ := pollRead_frame c b room
  rw [h]

@[simp] theorem pollRead_reply (c : Call) (b : Bool) (room : ℕ) : (pollRead c b room).2.reply = c.reply := by
  obtain ⟨_,_,_,h⟩ := pollRead_frame c b room
  rw [h]

section

variable (h : Maps s.calls s.pending s.streams)
include h

/-- An answer, or the loss of the sender, takes the reply channel out of the map. -/
theorem Maps.settle (l : UInt32) (slot : Slot)
    (hslot : slot ≠ .empty) : Maps (s.settle l slot).calls (s.settle l slot).pending s.streams := by
  refine h.answer (fun j => s.pending l = some j) slot hslot (settle_calls s l slot) ?_ fun j hj => ⟨l,hj⟩
  intro l' j
  rw [settle_pending]
  constructor
  · intro hj
    split_ifs at hj with hne
    exact ⟨hj,fun hl => hne (h.pending_unique hj hl)⟩
  · rintro ⟨hj,hnot⟩
    rw [if_neg]
    · exact hj
    · rintro rfl
      exact hnot hj

theorem Maps.drain : Maps (fun i => (s.calls i).map fun c =>
      if s.pending c.localId = some i then { c with reply := .sent (.error .disconnected) } else c)
      (fun _ => none) s.streams := by
  classical
  refine h.answer (fun j => ∃ l, s.pending l = some j) (.sent (.error .disconnected)) (by simp) ?_ ?_ fun j hj => hj
  · intro j
    apply Option.map_congr
    intro c hc
    have hiff : s.pending c.localId = some j ↔ ∃ l, s.pending l = some j := by
      refine ⟨fun h => ⟨_,h⟩,?_⟩
      rintro ⟨l,hl⟩
      obtain ⟨d,hd,rfl,-⟩ := h.pending_call l j hl
      cases hc.symm.trans hd
      exact hl
    simp only [hiff]
  · intro l j
    refine iff_of_false (by simp) ?_
    rintro ⟨hj,hnot⟩
    exact hnot ⟨l,hj⟩

theorem settle_call (hc : s.calls i = some c)
    (hp : ¬c.phase.asks) (l : UInt32) (slot : Slot) : (s.settle l slot).calls i = some c := by
  rw [settle_calls,hc,map_some,if_neg]
  intro hl
  obtain ⟨d,hd,-,-,hasks⟩ := h.pending_call l i hl
  cases hc.symm.trans hd
  exact hp hasks

end

section

variable {k : ℕ} {p : Call → Prop} {slot : Slot}

/-- What holds of a call before a step of another one, or of its own that keeps it, holds after it. -/
theorem update_keeps (h : ∀ d, calls i = some d → P d) (hc : calls k = some c) (hmove : P c → P c') :
    ∀ d, update calls k (some c') i = some d → P d :=
  update_to h fun hki => hmove (h c (hki ▸ hc))

theorem answer_keeps [DecidablePred p] (h : ∀ d, calls i = some d → P d)
    (hslot : ∀ d, P d → P { d with reply := slot }) :
    ∀ d, ((calls i).map fun c => if p c then { c with reply := slot } else c) = some d → P d := by
  intro d hd
  obtain ⟨c,hc,rfl⟩ := map_eq_some_iff.mp hd
  split
  · exact hslot c (h c hc)
  · exact h c hc

theorem settle_keeps (h : ∀ d, s.calls i = some d → P d)
    (hslot : ∀ d, P d → P { d with reply := slot }) (l : UInt32) : ∀ d, (s.settle l slot).calls i = some d → P d := by
  rw [settle_calls]
  exact answer_keeps h hslot

end

/-- Every step keeps the maps in order. -/
theorem maps_step (h : Maps s.calls s.pending s.streams) (hstep : Steps s a s') : Maps s'.calls s'.pending s'.streams := by
  cases hstep with
  | start hnew halive => exact h.start hnew rfl rfl
  | @file i c hc hp =>
    have hm : Maps (update s.calls i (some { c with phase := .filed })) s.pending s.streams := by
      refine h.move hc rfl ?_ (fun hl => hl.elim) (fun _ => trivial) (fun _ => h.early_empty i c hc (hp ▸ trivial))
      intro hpend
      have hasks := (h.asked hc hpend).2
      rw [hp] at hasks
      exact hasks.elim
    exact hm.file (c:={ c with phase := .filed }) (update_self ..) trivial
  | @register i c hc hp =>
    have hm := h.settle c.localId .gone (by simp)
    have hsame := settle_call h hc (hp ▸ not_false) c.localId .gone
    have hfree : (s.settle c.localId .gone).pending c.localId = none := by
      rw [settle_pending,if_pos rfl]
    have hpend : update s.pending c.localId (some i) =
        update (s.settle c.localId .gone).pending c.localId (some i) := by
      funext l
      by_cases hl : l = c.localId
      · subst hl
        rw [update_self,update_self]
      · rw [update_of_ne hl,update_of_ne hl,settle_pending,if_neg hl]
    have hreg := hm.register hsame hp hfree
    rw [← hpend] at hreg
    simpa [State.setCall] using hreg
  | @send i c hc hp hw =>
    refine h.move hc rfl (fun hpend => ⟨(h.asked hc hpend).1,trivial⟩) ?_ (fun _ => trivial) (fun he => he.elim)
    intro _ he
    exact h.pending_of_empty i c hc (hp ▸ trivial) he
  | sendFailed hc hp hw | refused hc hp hr | forsaken hc hp hr | elapse hc hp hr | cancel hc hp =>
    exact h.move hc rfl (fun hpend => ⟨(h.asked hc hpend).1,trivial⟩) (fun hl => hl.elim) (fun _ => trivial)
      (fun he => he.elim)
  | opened hc hp hr =>
    refine h.move hc rfl ?_ (fun hl => hl.elim) (fun _ => trivial) (fun he => he.elim)
    intro hpend
    cases hr.symm.trans (h.asked hc hpend).1
  | @abortPending i c e hc hp =>
    have hm := h.settle c.localId .gone (by simp)
    obtain ⟨d,hd,hid⟩ : ∃ d, (s.settle c.localId .gone).calls i = some d ∧ c.localId = d.localId := by
      rw [settle_calls,hc,map_some]
      exact ⟨_,rfl,by split <;> rfl⟩
    have hmove : Maps (update (s.settle c.localId .gone).calls i (some { c with phase := .aborted e }))
        (s.settle c.localId .gone).pending s.streams := by
      refine hm.move hd hid ?_ (fun hl => hl.elim) (fun _ => trivial) (fun he => he.elim)
      intro hpend
      rw [← hid,settle_pending,if_pos rfl] at hpend
      cases hpend
    simpa [State.setCall] using hmove
  | @abortStream i c e hc hp =>
    refine (h.unfile fun l j hj => (unfile_cases hj).1).move hc rfl ?_ (fun hl => hl.elim) ?_ (fun he => he.elim)
    · intro hpend
      have hasks := (h.asked hc hpend).2
      rw [hp] at hasks
      exact hasks.elim
    · intro hstream
      exact absurd rfl (unfile_cases hstream).2
  | okay hr hm | fail hr hm | clse hr hm => simpa using h.settle _ _ (by simp)
  | wrte hr hm hi | ignored hr hm hw | stop ha hr | undelivered hr hc hrx | enqueue hr hw | enqueueFailed hr hw
    | writer ha hw hw' | write hc hp hw | dropConnection =>
    exact h
  | forget hr | unfile hr => exact h.unfile fun l j hj => (unfile_cases hj).1
  | deliver hr hc hrx | leave ha hc hp hrx hcl | sendClose hc hp hcl hw | closeLost hc hp hcl hw =>
    exact h.touch hc rfl rfl rfl
  | drain hr => exact h.drain
  | drainStreams hw => exact h.unfile fun l j hj => nomatch hj
  | read hc hp hrx => exact h.touch hc (pollRead_localId ..) (pollRead_phase ..) (pollRead_reply ..)
  | closerUnfile hc hp hcl => exact (h.unfile fun l j hj => (unfile_cases hj).1).touch hc rfl rfl rfl

theorem maps_run (h : exec step {} as = some s) : Maps s.calls s.pending s.streams := by
  refine exec_invariant (fun _ _ _ hm hstep => maps_step hm (step_steps hstep)) ?_ h
  constructor <;> intros <;> contradiction

end AdbShare.Connection
