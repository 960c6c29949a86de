import AdbShare.LocalIds

/-! What a stream reads. Along a run it is noted down which payloads have come for a call since
its data channel was registered, until the stream or the connection ends. -/
namespace AdbShare.Connection

open Transition Function

/-- `arrived` has the WRTE payloads with the id of the call. -/
structure Past where
  arrived : List Bytes := []
  ended : Bool := false

/-- The payload that a step brings for the call. -/
def arrival (c : Call) : Label → List Bytes
  | .reader (.frame m) => if m.command = .write ∧ m.arg1 = c.localId then [m.payload] else []
  | _ => []

/-- The step ends the stream: the device has closed it, we have, or the writer has ended. -/
def ending (s : State) (i : ℕ) (c : Call) : Label → Bool
  | .reader .forget => decide (s.reader = .closing c.localId)
  | .stream j .unfile => decide (j = i)
  | .writer .drain => true
  | _ => false

def note (i : ℕ) (s : State) (a : Label) (p : Past) : Past :=
  match s.calls i with
  | none => p
  | some c =>
    if c.phase = .numbered ∨ p.ended = true then p
    else { arrived := p.arrived++arrival c a, ended := ending s i c a }

variable {i : ℕ} {s : State} {a : Label} {p : Past} {c : Call}

theorem note_none (h : s.calls i = none) : note i s a p = p := by
  rw [note,h]

theorem note_numbered (hc : s.calls i = some c) (hp : c.phase = .numbered) : note i s a p = p := by
  rw [note,hc]
  exact if_pos (.inl hp)

theorem note_ended (hc : s.calls i = some c) (hended : p.ended) : note i s a p = p := by
  rw [note,hc]
  exact if_pos (.inr hended)

theorem note_filed (hc : s.calls i = some c) (hp : c.phase ≠ .numbered) (hended : p.ended = false) :
    note i s a p = { arrived := p.arrived++arrival c a, ended := ending s i c a } := by
  rw [note,hc]
  refine if_neg ?_
  rintro (h | h)
  · exact hp h
  · cases hended.symm.trans h

theorem note_arrived (h : ∀ c, s.calls i = some c → arrival c a = []) : (note i s a p).arrived = p.arrived := by
  obtain hc | ⟨c,hc⟩ := Option.eq_none_or_eq_some (s.calls i)
  · rw [note_none hc]
  rw [note,hc]
  dsimp only
  split
  · rfl
  · rw [h c hc,List.append_nil]

theorem note_ended_eq (h : ∀ c, s.calls i = some c → ending s i c a = false) : (note i s a p).ended = p.ended := by
  obtain hc | ⟨c,hc⟩ := Option.eq_none_or_eq_some (s.calls i)
  · rw [note_none hc]
  rw [note,hc]
  dsimp only
  split
  · rfl
  · rename_i hnot
    rw [h c hc]
    simpa using fun hended => hnot (.inr hended)

theorem note_ends (hc : s.calls i = some c) (hp : c.phase ≠ .numbered) (ha : ending s i c a) :
    (note i s a p).ended := by
  by_cases hended : p.ended
  · rwa [note_ended hc hended]
  · rw [note_filed hc hp (by simpa using hended)]
    exact ha

/-- The payload on its way from the reader to the stream. -/
def State.inflight (s : State) (i : ℕ) : List Bytes :=
  match s.reader with
  | .delivering j _ _ payload => if j = i then [payload] else []
  | _ => []

/-- The chunks that have arrived are those that have been read, the queued ones and the one on
its way; and the bytes read are those returned and the rest of a chunk. -/
def Reads (c : Call) (inflight arrived : List Bytes) : Prop :=
  ∃ read, read++c.queue++inflight = arrived ∧ read.flatten = c.returned.flatten++c.incoming.getD []

theorem getD_rest (rest : Bytes) : (if rest = [] then none else some rest : Option Bytes).getD [] = rest := by
  split
  · rename_i h
    exact h.symm
  · rfl

variable {inflight arrived : List Bytes} {s' : State} {as : List Label} {b : Bool} {room : ℕ}

theorem pollRead_reads (h : Reads c inflight arrived) (b : Bool) (room : ℕ) :
    Reads (pollRead c b room).2 inflight arrived := by
  obtain ⟨read,harrived,hread⟩ := h
  unfold pollRead
  split
  · exact ⟨read,harrived,hread⟩
  split
  · rename_i hincoming
    refine ⟨read,harrived,?_⟩
    rw [hread,hincoming,getD_rest,List.flatten_append,List.append_assoc]
    simp
  · rename_i hincoming
    have hnone : c.incoming.getD [] = [] := by
      match hc : c.incoming with
      | none => rfl
      | some [] => rfl
      | some (b::pending) => exact absurd hc (hincoming b pending)
    rw [hnone,List.append_nil] at hread
    split
    · rename_i chunk queue hqueue
      refine ⟨read++[chunk],?_,?_⟩
      · rw [← harrived,hqueue]
        simp
      · dsimp only
        rw [getD_rest]
        simp [hread]
    · split
      · exact ⟨read,harrived,by simpa using hread⟩
      · exact ⟨read,harrived,by simpa using hread⟩

/-- The reader only holds on to data channels of calls that exist, and it gives up on one when
the call does not receive. -/
structure Attends (s : State) : Prop where
  delivering : ∀ j l r payload, s.reader = .delivering j l r payload → ∃ c, s.calls j = some c ∧ c.localId = l
  forgetting : ∀ l r, s.reader = .forgetting l r → ∃ j c, s.calls j = some c ∧ c.localId = l ∧ c.receiving = false

theorem attends_step (hm : Maps s.calls s.pending s.streams) (h : Attends s) (hstep : Steps s a s') : Attends s' := by
  have hkeep : s'.reader = s.reader → Attends s' := by
    intro hr
    constructor
    · intro j l r payload hd
      obtain ⟨c,hc,hl⟩ := h.delivering j l r payload (hr ▸ hd)
      obtain ⟨c',hc',hkept⟩ := steps_kept hstep hc
      exact ⟨c',hc',hkept.localId.trans hl⟩
    · intro l r hf
      obtain ⟨j,c,hc,hl,hrx⟩ := h.forgetting l r (hr ▸ hf)
      obtain ⟨c',hc',hkept⟩ := steps_kept hstep hc
      refine ⟨j,c',hc',hkept.localId.trans hl,?_⟩
      by_contra hrx'
      cases hrx.symm.trans (hkept.receiving (by simpa using hrx'))
  have hother : (∀ j l r payload, s'.reader ≠ .delivering j l r payload) → (∀ l r, s'.reader ≠ .forgetting l r) →
      Attends s' :=
    fun hd hf => ⟨fun j l r payload hr => absurd hr (hd j l r payload),fun l r hr => absurd hr (hf l r)⟩
  cases hstep with
  | register hc hp | abortPending hc hp | okay hr hm | fail hr hm => exact hkeep (settle_reader ..)
  | clse hr hm | stop ha hr | forget hr | deliver hr hc hrx | unfile hr | enqueue hr hw | enqueueFailed hr hw
    | drain hr =>
    exact hother (by simp) (by simp)
  | wrte hr hcommand hi =>
    refine ⟨?_,by simp⟩
    intro j l r payload hd
    cases hd
    obtain ⟨c,hc,hl,-⟩ := hm.stream_call _ _ hi
    exact ⟨c,hc,hl⟩
  | undelivered hr hc hrx =>
    refine ⟨by simp,?_⟩
    intro l r hf
    cases hf
    obtain ⟨d,hd,hl⟩ := h.delivering _ _ _ _ hr
    cases hc.symm.trans hd
    exact ⟨_,_,hc,hl,hrx⟩
  | _ => exact hkeep rfl

/-- What has been noted down about a call agrees with the state. -/
structure Tracks (i : ℕ) (s : State) (p : Past) : Prop where
  absent : s.calls i = none → p = {}
  numbered : ∀ c, s.calls i = some c → c.phase = .numbered → p = {}
  reads : ∀ c, s.calls i = some c → c.receiving = true → Reads c (s.inflight i) p.arrived
  filed : ∀ c, s.calls i = some c → c.receiving = true → c.phase ≠ .numbered →
    (s.streams c.localId = some i ↔ p.ended = false)

section

variable {k : ℕ} {c' : Call} {m : Message}

theorem inflight_eq_nil (h : ∀ l r payload, s.reader ≠ .delivering i l r payload) : s.inflight i = [] := by
  unfold State.inflight
  split
  · rename_i j l r payload hr
    refine if_neg ?_
    rintro rfl
    exact h l r payload hr
  · rfl

theorem tracks_absent (h : Tracks i s p) (hstep : Steps s a s') (hi : s'.calls i = none) : note i s a p = {} := by
  obtain hc | ⟨c,hc⟩ := Option.eq_none_or_eq_some (s.calls i)
  · rw [note_none hc]
    exact h.absent hc
  · obtain ⟨c',hc',-⟩ := steps_kept hstep hc
    cases hi.symm.trans hc'

theorem tracks_numbered (h : Tracks i s p) (hstep : Steps s a s') (hi : s'.calls i = some c')
    (hp : c'.phase = .numbered) : note i s a p = {} := by
  obtain ⟨c,hc,hkept⟩ | ⟨hc,-⟩ := steps_origin hstep hi
  · rw [note_numbered hc (hkept.numbered hp)]
    exact h.numbered c hc (hkept.numbered hp)
  · rw [note_none hc]
    exact h.absent hc

/-- A frame brings a payload for the call exactly if the reader takes it to the call. -/
theorem arrived_ignored (h : Tracks i s p) (hw : m.command = .write → s.streams m.arg1 = none)
    (hc : s.calls i = some c) (hrx : c.receiving) : (note i s (.reader (.frame m)) p).arrived = p.arrived := by
  by_cases hp : c.phase = .numbered
  · rw [note_numbered hc hp]
  by_cases hended : p.ended
  · rw [note_ended hc hended]
  have hopen : p.ended = false := by simpa using hended
  have hstream := (h.filed c hc hrx hp).mpr hopen
  rw [note_filed hc hp hopen]
  have harrival : arrival c (.reader (.frame m)) = [] := by
    refine if_neg ?_
    rintro ⟨hwrite,hl⟩
    cases (hl ▸ hw hwrite).symm.trans hstream
  rw [harrival,List.append_nil]

theorem reads_wrte (hm : Maps s.calls s.pending s.streams) (hd : Distinct s.calls) (h : Tracks i s p)
    (hr : s.reader = .idle) (hcommand : m.command = .write) (hk : s.streams m.arg1 = some k)
    (hc : s.calls i = some c) (hrx : c.receiving) :
    Reads c (State.inflight { s with reader := .delivering k m.arg1 m.arg0 m.payload } i)
      (note i s (.reader (.frame m)) p).arrived := by
  have hreads := h.reads c hc hrx
  rw [inflight_eq_nil (by simp [hr])] at hreads
  obtain ⟨d,hdk,hl,hfiles⟩ := hm.stream_call _ k hk
  by_cases hki : k = i
  · subst hki
    cases hc.symm.trans hdk
    have hp : c.phase ≠ .numbered := by
      intro hp
      rw [hp] at hfiles
      exact hfiles
    rw [note_filed hc hp ((h.filed c hc hrx hp).mp (hl ▸ hk))]
    obtain ⟨read,harrived,hread⟩ := hreads
    refine ⟨read,?_,hread⟩
    simp [State.inflight,arrival,hcommand,hl,← harrived]
  · have hother : ∀ c, s.calls i = some c → arrival c (.reader (.frame m)) = [] := by
      intro c hc
      refine if_neg ?_
      rintro ⟨-,hid⟩
      exact hki (hd k i d c hdk hc (hl.trans hid))
    rw [note_arrived hother,inflight_eq_nil (by simp [hki])]
    exact hreads

theorem reads_step (hm : Maps s.calls s.pending s.streams) (hd : Distinct s.calls) (hat : Attends s) (h : Tracks i s p)
    (hstep : Steps s a s') :
    ∀ c, s'.calls i = some c → c.receiving → Reads c (s'.inflight i) (note i s a p).arrived := by
  have hsettle : ∀ (l : UInt32) (slot : Slot) (c : Call), (s.settle l slot).calls i = some c → c.receiving →
      Reads c (s.inflight i) p.arrived := fun l slot => settle_keeps h.reads (fun _ hd => hd) l
  have hmoved : ∀ {k : ℕ} {c : Call} {ph : Phase} (l : UInt32), s.calls k = some c → ∀ d,
      update (s.settle l .gone).calls k (some { c with phase := ph }) i = some d → d.receiving →
      Reads d (s.inflight i) p.arrived := by
    intro k c ph l hc
    exact update_to (hsettle l .gone) fun hki => h.reads c (hki ▸ hc)
  have hrest : (∀ c, s.calls i = some c → arrival c a = []) → (∀ l r payload, s.reader ≠ .delivering i l r payload) →
      (∀ l r payload, s'.reader ≠ .delivering i l r payload) → (∀ c, s'.calls i = some c → c.receiving →
        Reads c (s.inflight i) p.arrived) →
      ∀ c, s'.calls i = some c → c.receiving → Reads c (s'.inflight i) (note i s a p).arrived := by
    intro ha hr hr' hreads c hc hrx
    rw [note_arrived ha,inflight_eq_nil hr',← inflight_eq_nil hr]
    exact hreads c hc hrx
  cases hstep with
  | @start k dest hnew halive =>
    rw [note_arrived fun _ _ => rfl]
    intro c hc hrx
    rcases update_some_cases hc with ⟨rfl,rfl⟩ | ⟨-,hc⟩
    · rw [h.absent hnew]
      refine ⟨[],?_,rfl⟩
      refine inflight_eq_nil ?_
      intro l r payload hr
      obtain ⟨d,hd,-⟩ := hat.delivering _ l r payload hr
      cases hnew.symm.trans hd
    · exact h.reads c hc hrx
  | file hc hp | send hc hp hw | sendFailed hc hp hw | opened hc hp hr | refused hc hp hr | forsaken hc hp hr
    | elapse hc hp hr | closerUnfile hc hp hcl | sendClose hc hp hcl hw | closeLost hc hp hcl hw =>
    rw [note_arrived fun _ _ => rfl]
    exact update_keeps h.reads hc id
  | register hc hp | abortPending hc hp =>
    rw [note_arrived fun _ _ => rfl]
    intro d hd hrx
    have hreads := hmoved _ hc d hd hrx
    simpa [State.inflight,State.setCall] using hreads
  | abortStream hc hp | cancel hc hp =>
    rw [note_arrived fun _ _ => rfl]
    exact update_keeps h.reads hc fun _ hrx => by cases hrx
  | okay hr hm | fail hr hm => exact hrest (by simp [arrival,hm]) (by simp [hr]) (by simp [hr]) (hsettle _ _)
  | clse hr hm => exact hrest (by simp [arrival,hm]) (by simp [hr]) (by simp) (hsettle _ _)
  | @wrte m k hr hcommand hk =>
    intro c hc hrx
    exact reads_wrte hm hd h hr hcommand hk hc hrx
  | ignored hr hm hw =>
    intro c hc hrx
    rw [arrived_ignored h hw hc hrx]
    exact h.reads c hc hrx
  | stop ha hr =>
    refine hrest ?_ (by simp [hr]) (by simp) h.reads
    rcases ha with rfl | rfl <;> exact fun _ _ => rfl
  | forget hr | unfile hr | enqueue hr hw | enqueueFailed hr hw =>
    exact hrest (fun _ _ => rfl) (by simp [hr]) (by simp) h.reads
  | @deliver k c l r payload hr hc hrx =>
    rw [note_arrived fun _ _ => rfl]
    intro d hdi hdrx
    rw [inflight_eq_nil (by simp)]
    rcases update_some_cases hdi with ⟨rfl,rfl⟩ | ⟨hne,hdi⟩
    · obtain ⟨read,harrived,hread⟩ := h.reads c hc hrx
      refine ⟨read,?_,hread⟩
      rw [← harrived]
      simp [State.inflight,hr]
    · have hreads := h.reads d hdi hdrx
      rwa [inflight_eq_nil (by simp [hr,Ne.symm hne])] at hreads
  | @undelivered k c l r payload hr hc hrx =>
    rw [note_arrived fun _ _ => rfl]
    intro d hdi hdrx
    have hreads := h.reads d hdi hdrx
    rw [inflight_eq_nil (by simp)]
    rw [inflight_eq_nil] at hreads
    · exact hreads
    intro l' r' payload' hr'
    cases hr.symm.trans hr'
    cases hc.symm.trans hdi
    cases hrx.symm.trans hdrx
  | drain hr => exact hrest (fun _ _ => rfl) (by simp [hr]) (by simp) (answer_keeps h.reads fun _ hreads => hreads)
  | writer ha hw hw' | drainStreams hw | write hc hp hw | dropConnection =>
    rw [note_arrived fun _ _ => rfl]
    exact h.reads
  | read hc hp hrx =>
    rw [note_arrived fun _ _ => rfl]
    exact update_keeps h.reads hc fun hreads _ => pollRead_reads (hreads hrx) _ _
  | leave ha hc hp hrx hcl =>
    rw [note_arrived fun _ _ => rfl]
    exact update_keeps h.reads hc fun hreads hrx' => hreads (hrx hrx')

theorem filed_step (hd : Distinct s.calls) (hat : Attends s) (h : Tracks i s p) (hstep : Steps s a s') :
    ∀ c, s'.calls i = some c → c.receiving → c.phase ≠ .numbered →
      (s'.streams c.localId = some i ↔ (note i s a p).ended = false) := by
  have hmoved : ∀ {k : ℕ} {c : Call} {ph : Phase} (l : UInt32), s.calls k = some c → c.phase ≠ .numbered → ∀ d,
      update (s.settle l .gone).calls k (some { c with phase := ph }) i = some d → d.receiving →
      d.phase ≠ .numbered → (s.streams d.localId = some i ↔ p.ended = false) := by
    intro k c ph l hc hcp
    exact update_to (settle_keeps h.filed (fun _ hd => hd) l) fun hki hrx _ => h.filed c (hki ▸ hc) hrx hcp
  have hunfiled : ∀ {c d : Call} {k : ℕ}, s.calls k = some d → s.calls i = some c → i ≠ k → c.receiving →
      c.phase ≠ .numbered → (update s.streams d.localId none c.localId = some i ↔ p.ended = false) := by
    intro c d k hk hc hne hrx hp
    rw [update_of_ne]
    · exact h.filed c hc hrx hp
    · exact fun hid => hne (hd i k c d hc hk hid)
  cases hstep with
  | start hnew halive =>
    rw [note_ended_eq fun _ _ => rfl]
    exact update_to h.filed fun _ _ hp => absurd rfl hp
  | @file k c hc hp =>
    intro d hdi hrx hdp
    rcases update_some_cases hdi with ⟨rfl,rfl⟩ | ⟨hne,hdi⟩
    · rw [note_numbered hc hp,h.numbered c hc hp]
      exact iff_of_true (update_self ..) rfl
    rw [note_ended_eq fun _ _ => rfl]
    refine Iff.trans ?_ (h.filed d hdi hrx hdp)
    have hids : d.localId ≠ c.localId := fun hid => hne (hd i k d c hdi hc hid)
    exact iff_of_eq (congrArg (· = some i) (update_of_ne hids ..))
  | register hc hp | abortPending hc hp =>
    rw [note_ended_eq fun _ _ => rfl]
    simpa [State.setCall] using hmoved _ hc (by simp [hp])
  | send hc hp hw | sendFailed hc hp hw | opened hc hp hr | refused hc hp hr | forsaken hc hp hr
    | elapse hc hp hr =>
    rw [note_ended_eq fun _ _ => rfl]
    exact update_keeps h.filed hc fun hf hrx _ => hf hrx (by simp [hp])
  | abortStream hc hp =>
    rw [note_ended_eq fun _ _ => rfl]
    intro d hdi hrx hdp
    rcases update_some_cases hdi with ⟨rfl,rfl⟩ | ⟨hne,hdi⟩
    · cases hrx
    · exact hunfiled hc hdi hne hrx hdp
  | cancel hc hp =>
    rw [note_ended_eq fun _ _ => rfl]
    exact update_keeps h.filed hc fun _ hrx => by cases hrx
  | okay hr hm | fail hr hm | clse hr hm =>
    rw [note_ended_eq fun _ _ => rfl]
    simpa using settle_keeps h.filed (fun _ hd => hd) _
  | @forget l hr =>
    intro c hc hrx hp
    change s.calls i = some c at hc
    by_cases hl : c.localId = l
    · subst hl
      rw [note_ends hc hp (by simp [ending,hr])]
      exact iff_of_false (by simp) (by simp)
    · rw [note_ended_eq]
      · dsimp only
        rw [update_of_ne hl]
        exact h.filed c hc hrx hp
      · intro d hdi
        cases hc.symm.trans hdi
        simp [ending,hr,Ne.symm hl]
  | @unfile l r hr =>
    rw [note_ended_eq fun _ _ => rfl]
    intro c hc hrx hp
    obtain ⟨j,d,hdj,rfl,hdrx⟩ := hat.forgetting _ _ hr
    refine hunfiled hdj hc ?_ hrx hp
    rintro rfl
    cases hc.symm.trans hdj
    cases hrx.symm.trans hdrx
  | deliver hr hc hrx | sendClose hc hp hcl hw | closeLost hc hp hcl hw =>
    rw [note_ended_eq fun _ _ => rfl]
    exact update_keeps h.filed hc id
  | stop ha hr =>
    rw [note_ended_eq]
    · exact h.filed
    · rcases ha with rfl | rfl <;> exact fun _ _ => rfl
  | drain hr =>
    rw [note_ended_eq fun _ _ => rfl]
    exact answer_keeps h.filed fun _ hf => hf
  | @writer b queue wire w ha hw hw' =>
    rw [note_ended_eq]
    · exact h.filed
    intro _ _
    cases b with
    | drain => exact absurd rfl ha
    | _ => rfl
  | drainStreams hw =>
    intro c hc hrx hp
    change s.calls i = some c at hc
    rw [note_ends hc hp rfl]
    exact iff_of_false (by simp) (by simp)
  | read hc hp hrx =>
    rw [note_ended_eq fun _ _ => rfl]
    refine update_keeps h.filed hc fun hf _ hp' => ?_
    rw [pollRead_localId]
    exact hf hrx (pollRead_phase .. ▸ hp')
  | leave ha hc hp hrx hcl =>
    rw [note_ended_eq]
    · exact update_keeps h.filed hc fun hf hrx' hp' => hf (hrx hrx') hp'
    · rcases ha with rfl | rfl <;> exact fun _ _ => rfl
  | @closerUnfile k c remote hc hp hcl =>
    intro d hdi hrx hdp
    rcases update_some_cases hdi with ⟨rfl,rfl⟩ | ⟨hne,hdi⟩
    · rw [note_ends hc (by simp [hp]) (by simp [ending])]
      exact iff_of_false (by simp) (by simp)
    · rw [note_ended_eq fun _ _ => by simp [ending,Ne.symm hne]]
      exact hunfiled hc hdi hne hrx hdp
  | _ =>
    rw [note_ended_eq fun _ _ => rfl]
    exact h.filed

/-- A step keeps the notes in agreement with the state, as long as ids are not used twice. -/
theorem tracks_step (hm : Maps s.calls s.pending s.streams) (hd : Distinct s.calls) (hat : Attends s) (h : Tracks i s p)
    (hstep : Steps s a s') : Tracks i s' (note i s a p) :=
  ⟨tracks_absent h hstep,fun _ hc hp => tracks_numbered h hstep hc hp,reads_step hm hd hat h hstep,
    filed_step hd hat h hstep⟩

end

/-- The state and what has been noted down about one call. -/
structure Followed (i : ℕ) (s : State) (p : Past) : Prop where
  maps : Maps s.calls s.pending s.streams
  distinct : Distinct s.calls
  attends : Attends s
  tracks : Tracks i s p

theorem followed_run (h : exec step {} as = some s) (hf : Meets step Fresh {} as) (i : ℕ) :
    Followed i s (history step (note i) {} as {}) := by
  refine exec_invariant_of_history ?_ ?_ hf h
  · intro u a v p hu hfresh hstep
    have hsteps := step_steps hstep
    exact ⟨maps_step hu.maps hsteps,distinct_step hu.distinct hfresh hsteps,attends_step hu.maps hu.attends hsteps,
      tracks_step hu.maps hu.distinct hu.attends hu.tracks hsteps⟩
  · refine ⟨maps_run (exec_nil step {}),?_,?_,?_⟩
    · intro _ _ _ _ hc
      cases hc
    · constructor <;> intros <;> contradiction
    · refine ⟨fun _ => rfl,?_,?_,?_⟩ <;> intro _ hc <;> cases hc

/-- A read that returns nothing has met an empty chunk, or there is nothing left and no sender. -/
theorem pollRead_empty (hroom : room ≠ 0) (h : (pollRead c b room).1 = .ready []) :
    [] ∈ c.queue ∨ c.incoming.getD [] = [] ∧ c.queue = [] ∧ b = false := by
  unfold pollRead at h
  rw [if_neg hroom] at h
  split at h
  · simp [hroom] at h
  rename_i hincoming
  split at h
  · rename_i chunk queue hqueue
    have hchunk : chunk = [] := by simpa [hroom] using h
    exact .inl (by simp [hqueue,hchunk])
  · rename_i hqueue
    split_ifs at h with hb
    refine .inr ⟨?_,hqueue,by simpa using hb⟩
    match hc : c.incoming with
    | none => rfl
    | some [] => rfl
    | some (b::pending) => exact absurd hc (hincoming b pending)

/-- An open stream has exactly what has arrived for it: returned, the rest of a chunk, queued and
on its way. If no payload was empty, a read reports the end only when the stream or the
connection has ended and everything has been returned. -/
theorem stream_bytes_exact {as : List Label} {s : State} (h : exec step {} as = some s) (hf : Meets step Fresh {} as)
    {i : ℕ} {c : Call} {remote : UInt32} (hc : s.calls i = some c) (hp : c.phase = .opened remote)
    (hrx : c.receiving = true) :
    c.returned.flatten++c.incoming.getD []++c.queue.flatten++(s.inflight i).flatten =
      (history step (note i) {} as {}).arrived.flatten ∧
    ([] ∉ (history step (note i) {} as {}).arrived → ∀ room, room ≠ 0 →
      (pollRead c (s.hasSender i c) room).1 = .ready [] → (history step (note i) {} as {}).ended = true ∧
        c.returned.flatten = (history step (note i) {} as {}).arrived.flatten) := by
  have hinv := (followed_run h hf i).tracks
  obtain ⟨p,hpast⟩ : ∃ p, history step (note i) {} as {} = p := ⟨_,rfl⟩
  rw [hpast] at hinv ⊢
  obtain ⟨read,harrived,hread⟩ := hinv.reads c hc hrx
  have hbytes : c.returned.flatten++c.incoming.getD []++c.queue.flatten++(s.inflight i).flatten = p.arrived.flatten := by
    rw [← harrived,List.flatten_append,List.flatten_append,hread]
  refine ⟨hbytes,?_⟩
  intro hfull room hroom hready
  rcases pollRead_empty hroom hready with hempty | ⟨hincoming,hqueue,hsender⟩
  · refine absurd ?_ hfull
    rw [← harrived]
    simp [hempty]
  · simp only [State.hasSender,Bool.or_eq_false_iff,decide_eq_false_iff_not] at hsender
    obtain ⟨⟨-,hstream⟩,hreader⟩ := hsender
    have hnone : s.inflight i = [] := by
      refine inflight_eq_nil ?_
      intro l r payload hr
      rw [hr] at hreader
      simp at hreader
    constructor
    · have hfiled := hinv.filed c hc hrx (by simp [hp])
      simpa using fun hopen => hstream (hfiled.mpr hopen)
    · rw [← hbytes,hincoming,hqueue,hnone]
      simp

def opening : List Label :=
  [.call 0 .file,.call 0 .register,.call 0 .send,.reader (.frame ⟨.okay,7,2,[]⟩),.call 0 .take]

/-- A chunk of two bytes comes, and one of them is read. -/
def reading : List Label :=
  [.reader (.frame ⟨.write,7,2,[1,2]⟩),.reader .deliver,.reader .enqueue,.stream 0 (.read 1)]

theorem stream_bytes_exact_reading : ∃ s c, exec step {} (Label.call 0 (.start [])::(opening++reading)) = some s ∧
    s.calls 0 = some c ∧ c.returned = [[1]] ∧ c.incoming = some [2] ∧
    c.returned.flatten++c.incoming.getD []++c.queue.flatten++(s.inflight 0).flatten =
      (history step (note 0) {} (Label.call 0 (.start [])::(opening++reading)) {}).arrived.flatten := by
  have hfresh : Meets step Fresh {} (Label.call 0 (.start [])::(opening++reading)) := by
    refine meets_cons rfl (fun _ _ hc => nomatch hc) ?_
    exact meets_of_check fresh_of_startsNone rfl
  exact ⟨_,_,rfl,rfl,rfl,rfl,(stream_bytes_exact rfl hfresh rfl rfl rfl).1⟩

/-- An empty payload is taken for the end, though the stream is open and more is to come. -/
theorem empty_payload_reads_end : ∃ s c, exec step {} (Label.call 0 (.start [])::(opening++
      [Label.reader (.frame ⟨.write,7,2,[]⟩),Label.reader .deliver,Label.reader .enqueue,
       Label.reader (.frame ⟨.write,7,2,[1]⟩),Label.reader .deliver])) = some s ∧
    s.calls 0 = some c ∧ c.phase = .opened 7 ∧ c.queue = [[],[1]] ∧
    (pollRead c (s.hasSender 0 c) 1).1 = .ready [] ∧ s.hasSender 0 c = true ∧
    (history step (note 0) {} (Label.call 0 (.start [])::(opening++
      [Label.reader (.frame ⟨.write,7,2,[]⟩),Label.reader .deliver,Label.reader .enqueue,
       Label.reader (.frame ⟨.write,7,2,[1]⟩),Label.reader .deliver])) {}).ended = false :=
  ⟨_,_,rfl,rfl,rfl,rfl,rfl,rfl,rfl⟩

end AdbShare.Connection
