import AdbShare.LocalIds

/-! What becomes of the streams that the device opens for us. A call that returns an error has
left both maps, an OKAY goes to the call whose id it has, and a stream that the device has
accepted has an owner or is being closed; but an OKAY that comes late is thrown away. -/
namespace AdbShare.Connection

open Transition List Option State

/-- The caller is not going to get a stream any more. -/
def Phase.gaveUp : Phase → Prop
  | .aborting _ | .aborted _ | .failed _ | .cancelled => True
  | _ => False

def Slot.refuses : Slot → Prop
  | .sent (.error _) | .gone => True
  | _ => False

/-- The first OKAY with the id of the call, since the call has registered. -/
def hear (i : ℕ) (s : State) (a : Label) (p : Option UInt32) : Option UInt32 :=
  match p, s.calls i, a with
  | none, some c, .reader (.frame m) =>
    if m.command = .okay ∧ m.arg1 = c.localId ∧ c.phase ≠ .numbered ∧ c.phase ≠ .filed then some m.arg0 else none
  | p, _, _ => p

/-- Ids are not used twice, no OKAY comes for a call that has been given up or turned down, and
no call is dropped once it has been accepted. -/
def Timely (s : State) : Label → Prop
  | .call i (.start dest) => Fresh s (.call i (.start dest))
  | .call i .cancel => ∀ c, s.calls i = some c → ¬c.reply.accepts
  | .reader (.frame m) => m.command = .okay →
      ∀ i c, s.calls i = some c → c.localId = m.arg1 → ¬c.phase.gaveUp ∧ ¬c.reply.refuses
  | _ => True

variable {s s' : State} {a : Label} {i : ℕ} {p : Option UInt32} {as : List Label} {c : Call} {e : AdbError}
  {remote : UInt32} {m : Message} {closed closed' : Prop} {phase : Phase}

theorem fresh_of_timely (h : Timely s a) : Fresh s a := by
  unfold Timely at h
  split at h
  · exact h
  · exact trivial
  · exact trivial
  rename_i hstart _ _
  unfold Fresh
  split
  · exact absurd rfl (hstart _ _)
  · exact trivial

theorem hear_self (h : ∀ m, a = .reader (.frame m) → m.command ≠ .okay) : hear i s a p = p := by
  unfold hear
  split
  · exact if_neg fun hm => h _ rfl hm.1
  · rfl

theorem hear_okay (hc : s.calls i = some c) (hm : m.command = .okay) (hl : m.arg1 = c.localId)
    (hp : c.phase ≠ .numbered ∧ c.phase ≠ .filed) : hear i s (.reader (.frame m)) none = some m.arg0 := by
  unfold hear
  rw [hc]
  exact if_pos ⟨hm,hl,hp⟩

/-- The writer stays closed and what was queued stays on record. -/
theorem steps_closed (hstep : Steps s a s') (h : s.writer = .closed) : s'.writer = .closed := by
  cases hstep with
  | register hc hp | abortPending hc hp | okay hr hm | fail hr hm | clse hr hm => exact (settle_writer ..).trans h
  | writer ha hw hw' => exact absurd h hw'
  | drainStreams hw => cases h.symm.trans hw
  | _ => exact h

theorem steps_queued (hstep : Steps s a s') : s.queued <+: s'.queued := by
  cases hstep with
  | register hc hp | abortPending hc hp | okay hr hm | fail hr hm | clse hr hm =>
    exact (settle_queued ..).symm ▸ prefix_rfl
  | send hc hp hw | enqueue hr hw | write hc hp hw | sendClose hc hp hcl hw => exact prefix_append ..
  | _ => exact prefix_rfl

/-- What is known of a call, with the answer that has been heard for it. -/
structure Heard (closed : Prop) (p : Option UInt32) (c : Call) : Prop where
  reply : ∀ r, c.reply = .sent (.ok r) ↔ p = some r
  opened : ∀ r, c.phase = .opened r → p = some r
  given : c.phase.gaveUp → p = none ∨ closed

section

variable {slot : Slot}

/-- A call goes on, neither to a stream nor giving up what it has. -/
theorem Heard.move (h : Heard closed p c) (hopened : ∀ r, phase = .opened r → p = some r)
    (hgiven : phase.gaveUp → p = none ∨ closed) : Heard closed p { c with phase := phase } :=
  ⟨h.reply,hopened,hgiven⟩

theorem Heard.none_of_empty (h : Heard closed p c) (hr : ∀ r, c.reply ≠ .sent (.ok r)) : p = none := by
  cases p with
  | none => rfl
  | some r => exact absurd ((h.reply r).mpr rfl) (hr r)

theorem heard_settle (hm : Maps s.calls s.pending s.streams) (h : ∀ c, s.calls i = some c → Heard closed p c)
    (hslot : ∀ r, slot ≠ .sent (.ok r)) (l : UInt32) : ∀ c, (s.settle l slot).calls i = some c → Heard closed p c := by
  intro d hd
  rw [settle_calls] at hd
  obtain ⟨c,hc,rfl⟩ := map_eq_some_iff.mp hd
  split
  · rename_i hpend
    obtain ⟨c',hc',-,hempty,-⟩ := hm.pending_call l i hpend
    cases hc.symm.trans hc'
    have hheard := h c hc
    have hnone := hheard.none_of_empty (by simp [hempty])
    exact ⟨fun r => iff_of_false (hslot r) (by simp [hnone]),hheard.opened,hheard.given⟩
  · exact h c hc

theorem heard_okay (hm : Maps s.calls s.pending s.streams) (h : ∀ c, s.calls i = some c → Heard closed p c)
    (hokay : m.command = .okay)
    (ht : ∀ i c, s.calls i = some c → c.localId = m.arg1 → ¬c.phase.gaveUp ∧ ¬c.reply.refuses) :
    ∀ c, (s.settle m.arg1 (.sent (.ok m.arg0))).calls i = some c → Heard closed (hear i s (.reader (.frame m)) p) c := by
  intro d hd
  rw [settle_calls] at hd
  obtain ⟨c,hc,rfl⟩ := map_eq_some_iff.mp hd
  have hheard := h c hc
  split
  · rename_i hpend
    obtain ⟨c',hc',hl,hempty,hasks⟩ := hm.pending_call _ i hpend
    cases hc.symm.trans hc'
    have hup := (ht i c hc hl).1
    have hearly := not_early_of_asks hasks
    have hphase : c.phase ≠ .numbered ∧ c.phase ≠ .filed := by
      constructor <;> intro hp <;> rw [hp] at hearly <;> exact hearly trivial
    rw [hheard.none_of_empty (by simp [hempty]),hear_okay hc hokay hl.symm hphase]
    refine ⟨fun r => by simp,?_,fun hg => absurd hg hup⟩
    intro r hp
    rw [hp] at hasks
    exact hasks.elim
  · rename_i hpend
    have hsame : hear i s (.reader (.frame m)) p = p := by
      cases p with
      | some r => rfl
      | none =>
        unfold hear
        rw [hc]
        refine if_neg ?_
        rintro ⟨-,hl,hnumbered,hfiled⟩
        obtain ⟨hup,hrefuses⟩ := ht i c hc hl.symm
        have hlisten : c.phase.listens → False := by
          intro hlisten
          match hr : c.reply with
          | .empty => exact hpend (hl ▸ hm.pending_of_empty i c hc hlisten hr)
          | .sent (.ok r) => exact nomatch (hheard.reply r).mp hr
          | .sent (.error e) => exact hrefuses (hr ▸ trivial)
          | .gone => exact hrefuses (hr ▸ trivial)
        match hp : c.phase with
        | .numbered => exact hnumbered hp
        | .filed => exact hfiled hp
        | .registered => exact hlisten (hp ▸ trivial)
        | .waiting => exact hlisten (hp ▸ trivial)
        | .aborting e => exact hup (hp ▸ trivial)
        | .aborted e => exact hup (hp ▸ trivial)
        | .failed e => exact hup (hp ▸ trivial)
        | .opened r => exact nomatch hheard.opened r hp
        | .cancelled => exact hup (hp ▸ trivial)
    rw [hsame]
    exact hheard

theorem Heard.mono (h : Heard closed p c) (hclosed : closed → closed') : Heard closed' p c :=
  ⟨h.reply,h.opened,fun hg => (h.given hg).imp_right hclosed⟩

theorem heard_step (hm : Maps s.calls s.pending s.streams) (habsent : s.calls i = none → p = none)
    (h : ∀ c, s.calls i = some c → Heard (s.writer = .closed) p c) (ht : Timely s a) (hstep : Steps s a s') :
    ∀ c, s'.calls i = some c → Heard (s'.writer = .closed) (hear i s a p) c := by
  have hclosed := steps_closed hstep
  have hkeep : hear i s a p = p → (∀ c, s'.calls i = some c → Heard (s.writer = .closed) p c) →
      ∀ c, s'.calls i = some c → Heard (s'.writer = .closed) (hear i s a p) c := by
    intro hself hs c hc
    rw [hself]
    exact (hs c hc).mono hclosed
  cases hstep with
  | start hnew halive =>
    refine hkeep (hear_self (by simp)) (update_to h ?_)
    rintro rfl
    rw [habsent hnew]
    exact ⟨fun r => iff_of_false (by simp) (by simp),by simp,fun hg => hg.elim⟩
  | file hc hp | send hc hp hw =>
    exact hkeep (hear_self (by simp)) (update_keeps h hc fun hh => hh.move (by simp) (fun hg => hg.elim))
  | register hc hp =>
    refine hkeep (hear_self (by simp)) (update_to (heard_settle hm h (by simp) _) ?_)
    rintro rfl
    exact (h _ hc).move (by simp) (fun hg => hg.elim)
  | sendFailed hc hp hw =>
    exact hkeep (hear_self (by simp)) (update_keeps h hc fun hh => hh.move (by simp) (fun _ => .inr hw))
  | @opened k c remote hc hp hr =>
    refine hkeep (hear_self (by simp)) (update_keeps h hc fun hh => ⟨hh.reply,?_,fun hg => hg.elim⟩)
    intro r hr'
    cases hr'
    exact (hh.reply _).mp hr
  | refused hc hp hr | forsaken hc hp hr | elapse hc hp hr =>
    exact hkeep (hear_self (by simp)) (update_keeps h hc fun hh => hh.move (by simp)
      (fun _ => .inl (hh.none_of_empty (by simp [hr]))))
  | abortPending hc hp =>
    refine hkeep (hear_self (by simp)) (update_to (heard_settle hm h (by simp) _) ?_)
    rintro rfl
    exact (h _ hc).move (by simp) (fun _ => (h _ hc).given (hp ▸ trivial))
  | abortStream hc hp =>
    exact hkeep (hear_self (by simp)) (update_keeps h hc fun hh => ⟨hh.reply,by simp,fun _ => hh.given (hp ▸ trivial)⟩)
  | @cancel k c hc hp =>
    refine hkeep (hear_self (by simp)) (update_keeps h hc fun hh => ⟨hh.reply,by simp,fun _ => .inl ?_⟩)
    refine hh.none_of_empty fun r hr => ht c hc ?_
    rw [hr]
    trivial
  | okay hr hokay =>
    intro c hc
    exact (heard_okay hm h hokay (ht hokay) c hc).mono hclosed
  | fail hr hcommand | clse hr hcommand => exact hkeep (hear_self (by simp [hcommand])) (heard_settle hm h (by simp) _)
  | wrte hr hcommand hi => exact hkeep (hear_self (by simp [hcommand])) h
  | ignored hr hcommand hw => exact hkeep (hear_self (by simpa using hcommand)) h
  | stop ha hr => exact hkeep (hear_self (by rcases ha with rfl | rfl <;> simp)) h
  | deliver hr hc hrx => exact hkeep (hear_self (by simp)) (update_keeps h hc fun hh => ⟨hh.reply,hh.opened,hh.given⟩)
  | drain hr =>
    refine hkeep (hear_self (by simp)) ?_
    intro d hd
    obtain ⟨c,hc,rfl⟩ := map_eq_some_iff.mp hd
    split
    · rename_i hpend
      have hnone := (h c hc).none_of_empty (by simp [(hm.asked hc hpend).1])
      exact ⟨fun r => iff_of_false (by simp) (by simp [hnone]),(h c hc).opened,(h c hc).given⟩
    · exact h c hc
  | read hc hp hrx =>
    obtain ⟨queue,incoming,returned,hpoll⟩ := pollRead_frame _ _ _
    rw [hpoll] at hkeep ⊢
    exact hkeep (hear_self (by simp)) (update_keeps h hc fun hh => ⟨hh.reply,hh.opened,hh.given⟩)
  | leave ha hc hp hrx hcl | closerUnfile hc hp hcl | sendClose hc hp hcl hw | closeLost hc hp hcl hw =>
    exact hkeep (hear_self (by simp)) (update_keeps h hc fun hh => ⟨hh.reply,hh.opened,hh.given⟩)
  | _ => exact hkeep (hear_self (by simp)) h

end

/-- The stream of a call is closed once it is left. -/
structure Closes (closed : Prop) (queued : List WriteReq) (c : Call) : Prop where
  receiving : c.phase.inProgress → c.receiving = true
  present : ∀ r, c.phase = .opened r → c.closer ≠ .absent
  left : ∀ r, c.phase = .opened r → c.receiving = false → c.closer ≠ .armed
  done : ∀ r, c.phase = .opened r → c.closer = .done → closed ∨ .frame ⟨.close,c.localId,r,[]⟩ ∈ queued

section

variable {queued queued' : List WriteReq}

theorem Closes.mono (h : Closes closed queued c) (hclosed : closed → closed')
    (hqueued : queued <+: queued') : Closes closed' queued' c := by
  refine ⟨h.receiving,h.present,h.left,?_⟩
  intro r hp hd
  exact (h.done r hp hd).imp hclosed fun hmem => hqueued.subset hmem

theorem Closes.move (h : Closes closed queued c) (hc : c.phase.inProgress)
    (hp : ∀ r, phase ≠ .opened r) : Closes closed queued { c with phase := phase } :=
  ⟨fun _ => h.receiving hc,fun r hr => absurd hr (hp r),fun r hr => absurd hr (hp r),fun r hr => absurd hr (hp r)⟩

theorem closes_settle (h : ∀ c, s.calls i = some c → Closes closed queued c) (l : UInt32) (slot : Slot) :
    ∀ c, (s.settle l slot).calls i = some c → Closes closed queued c :=
  settle_keeps h (fun _ hc => ⟨hc.receiving,hc.present,hc.left,hc.done⟩) l

theorem closes_step (h : ∀ c, s.calls i = some c → Closes (s.writer = .closed) s.queued c) (hstep : Steps s a s') :
    ∀ c, s'.calls i = some c → Closes (s'.writer = .closed) s'.queued c := by
  have hkeep : (∀ c, s'.calls i = some c → Closes (s.writer = .closed) s.queued c) →
      ∀ c, s'.calls i = some c → Closes (s'.writer = .closed) s'.queued c := by
    intro hs c hc
    exact (hs c hc).mono (steps_closed hstep) (steps_queued hstep)
  cases hstep with
  | start hnew halive => exact hkeep (update_to h fun _ => ⟨fun _ => rfl,by simp,by simp,by simp⟩)
  | file hc hp | send hc hp hw | sendFailed hc hp hw | refused hc hp hr | forsaken hc hp hr | elapse hc hp hr =>
    exact hkeep (update_keeps h hc fun hh => hh.move (hp ▸ trivial) (by simp))
  | register hc hp | abortPending hc hp =>
    refine hkeep (update_to (closes_settle h _ _) ?_)
    rintro rfl
    exact (h _ hc).move (hp ▸ trivial) (by simp)
  | opened hc hp hr =>
    refine hkeep (update_keeps h hc fun hh => ⟨fun hg => hg.elim,by simp,?_,by simp⟩)
    intro r _ hrx
    cases (hh.receiving (hp ▸ trivial)).symm.trans hrx
  | abortStream hc hp | cancel hc hp =>
    exact hkeep (update_keeps h hc fun _ => ⟨fun h => h.elim,by simp,by simp,by simp⟩)
  | okay hr hm | fail hr hm | clse hr hm => exact hkeep (closes_settle h _ _)
  | deliver hr hc hrx => exact hkeep (update_keeps h hc fun hh => ⟨hh.receiving,hh.present,hh.left,hh.done⟩)
  | drain hr => exact hkeep (answer_keeps h fun _ hh => ⟨hh.receiving,hh.present,hh.left,hh.done⟩)
  | read hc hp hrx =>
    obtain ⟨queue,incoming,returned,hpoll⟩ := pollRead_frame _ _ _
    rw [hpoll] at hkeep ⊢
    exact hkeep (update_keeps h hc fun hh => ⟨hh.receiving,hh.present,hh.left,hh.done⟩)
  | @leave k b c remote closer receiving ha hc hp hrx hcl =>
    refine hkeep (update_keeps h hc fun hh => ?_)
    have hlate : ¬c.phase.inProgress := hp ▸ not_false
    obtain ⟨rfl,harmed⟩ | rfl := hcl
    · exact ⟨fun hg => absurd hg hlate,hh.present,fun _ _ _ => harmed,hh.done⟩
    · exact ⟨fun hg => absurd hg hlate,by simp,by simp,by simp⟩
  | closerUnfile hc hp hcl => exact hkeep (update_keeps h hc fun hh => ⟨hh.receiving,by simp,by simp,by simp⟩)
  | @sendClose k c remote hc hp hcl hw =>
    intro d hd
    obtain ⟨rfl,rfl⟩ | ⟨hne,hd⟩ := update_some_cases hd
    · refine ⟨(h c hc).receiving,by simp,by simp,?_⟩
      intro r hr _
      cases hp.symm.trans hr
      exact .inr (by simp [pushed,setCall])
    · exact (h d hd).mono id (prefix_append ..)
  | closeLost hc hp hcl hw =>
    exact hkeep (update_keeps h hc fun hh => ⟨hh.receiving,by simp,by simp,fun _ _ _ => .inl hw⟩)
  | _ => exact hkeep h

end

/-- The state with what has been heard for one call. -/
structure Minded (i : ℕ) (s : State) (p : Option UInt32) : Prop where
  maps : Maps s.calls s.pending s.streams
  distinct : Distinct s.calls
  absent : s.calls i = none → p = none
  heard : ∀ c, s.calls i = some c → Heard (s.writer = .closed) p c
  closes : ∀ c, s.calls i = some c → Closes (s.writer = .closed) s.queued c

theorem minded_step (h : Minded i s p) (ht : Timely s a) (hstep : Steps s a s') : Minded i s' (hear i s a p) := by
  refine ⟨maps_step h.maps hstep,distinct_step h.distinct (fresh_of_timely ht) hstep,?_,
    heard_step h.maps h.absent h.heard ht hstep,closes_step h.closes hstep⟩
  intro hi
  obtain hc | ⟨c,hc⟩ := eq_none_or_eq_some (s.calls i)
  · rw [h.absent hc]
    unfold hear
    rw [hc]
  · obtain ⟨c',hc',-⟩ := steps_kept hstep hc
    cases hi.symm.trans hc'

theorem minded_run (h : exec step {} as = some s) (ht : Meets step Timely {} as) (i : ℕ) :
    Minded i s (history step (hear i) {} as none) := by
  refine exec_invariant_of_history ?_ ?_ ht h
  · intro u a v p hu htimely hstep
    exact minded_step hu htimely (step_steps hstep)
  refine ⟨maps_run (exec_nil step {}),?_,fun _ => rfl,?_,?_⟩
  · intro _ _ _ _ hc
    cases hc
  · intro _ hc
    cases hc
  · intro _ hc
    cases hc

/-- The stream that the device has opened has somebody who minds it: the call that is about to
return it, who holds it, or the task that closes it, until CLSE has been queued. When the writer
has gone, so has the connection. -/
def Owned (s : State) (c : Call) (remote : UInt32) : Prop :=
  (c.phase = .registered ∨ c.phase = .waiting) ∧ c.reply = .sent (.ok remote) ∨
  c.phase = .opened remote ∧ (c.receiving = true ∨ c.closer = .woken ∨ c.closer = .sending ∨
    .frame ⟨.close,c.localId,remote,[]⟩ ∈ s.queued) ∨
  s.writer = .closed

theorem Minded.unlisted (h : Minded i s p) (hc : s.calls i = some c) (hp : c.phase = .failed e) :
    s.streams c.localId = none ∧ s.pending c.localId = none := by
  constructor
  · refine eq_none_iff_forall_ne_some.mpr ?_
    intro j hj
    obtain ⟨d,hd,hl,hfiles⟩ := h.maps.stream_call _ j hj
    obtain rfl := h.distinct j i d c hd hc hl
    cases hc.symm.trans hd
    rw [hp] at hfiles
    exact hfiles
  · refine eq_none_iff_forall_ne_some.mpr ?_
    intro j hj
    obtain ⟨d,hd,hl,-,hasks⟩ := h.maps.pending_call _ j hj
    obtain rfl := h.distinct j i d c hd hc hl
    cases hc.symm.trans hd
    rw [hp] at hasks
    exact hasks

theorem Minded.owned (h : Minded i s (some remote)) (hc : s.calls i = some c) : Owned s c remote := by
  have hheard := h.heard c hc
  have hreply := (hheard.reply remote).mpr rfl
  have hearly : c.phase.early → Owned s c remote := by
    intro he
    cases hreply.symm.trans (h.maps.early_empty i c hc he)
  have hgiven : c.phase.gaveUp → Owned s c remote := fun hg => .inr (.inr ((hheard.given hg).resolve_left (by simp)))
  match hp : c.phase with
  | .numbered => exact hearly (hp ▸ trivial)
  | .filed => exact hearly (hp ▸ trivial)
  | .registered => exact .inl ⟨.inl hp,hreply⟩
  | .waiting => exact .inl ⟨.inr hp,hreply⟩
  | .aborting e => exact hgiven (hp ▸ trivial)
  | .aborted e => exact hgiven (hp ▸ trivial)
  | .failed e => exact hgiven (hp ▸ trivial)
  | .cancelled => exact hgiven (hp ▸ trivial)
  | .opened r =>
    cases hheard.opened r hp
    have hcloses := h.closes c hc
    by_cases hrx : c.receiving
    · exact .inr (.inl ⟨hp,.inl hrx⟩)
    match hcl : c.closer with
    | .absent => exact absurd hcl (hcloses.present _ hp)
    | .armed => exact absurd hcl (hcloses.left _ hp (by simpa using hrx))
    | .woken => exact .inr (.inl ⟨hp,.inr (.inl hcl)⟩)
    | .sending => exact .inr (.inl ⟨hp,.inr (.inr (.inl hcl))⟩)
    | .done =>
      obtain hclosed | hqueued := hcloses.done _ hp hcl
      · exact .inr (.inr hclosed)
      · exact .inr (.inl ⟨hp,.inr (.inr (.inr hqueued))⟩)

/-- In every run in which no answer comes late: a call that has failed is in neither map, an OKAY
changes only the one call that has its id, and every stream that the device has accepted is
minded. -/
theorem open_calls_owned {as : List Label} {s : State} (h : exec step {} as = some s) (ht : Meets step Timely {} as) :
    (∀ i c e, s.calls i = some c → c.phase = .failed e → s.streams c.localId = none ∧ s.pending c.localId = none) ∧
    (∀ m i c, m.command = .okay → s.calls i = some c → (dispatch s m).calls i ≠ some c →
      c.localId = m.arg1 ∧ ∀ j d, s.calls j = some d → d.localId = m.arg1 → j = i) ∧
    (∀ i c remote, s.calls i = some c → history step (hear i) {} as none = some remote → Owned s c remote) := by
  refine ⟨?_,?_,?_⟩
  · intro i c e hc hp
    exact (minded_run h ht i).unlisted hc hp
  · intro m i c hm hc hchanged
    have hinv := minded_run h ht i
    have hpend : s.pending m.arg1 = some i := by
      by_contra hpend
      refine hchanged ?_
      unfold dispatch
      rw [hm]
      dsimp only
      rw [settle_calls,hc,map_some,if_neg hpend]
    obtain ⟨d,hd,hl,-⟩ := hinv.maps.pending_call _ i hpend
    cases hc.symm.trans hd
    exact ⟨hl,fun j d hd hdl => hinv.distinct j i d c hd hc (hdl.trans hl.symm)⟩
  · intro i c remote hc hheard
    have hinv := minded_run h ht i
    rw [hheard] at hinv
    exact hinv.owned hc

section

/-- The reader is about to tell the device that the stream with this id is closed, or may come to it. -/
def Reader.about (l : UInt32) : Reader → Prop
  | .delivering _ localId _ _ | .forgetting localId _ => localId = l
  | .queueing m => m.command = .close ∧ m.arg0 = l
  | _ => False

variable {l : UInt32}

/-- The call with this id has failed, and nobody closes a stream with it. -/
structure Orphan (i : ℕ) (l : UInt32) (s : State) : Prop where
  maps : Maps s.calls s.pending s.streams
  distinct : Distinct s.calls
  failed : ∃ c e, s.calls i = some c ∧ c.localId = l ∧ c.phase = .failed e
  reader : ¬s.reader.about l
  queued : ∀ remote, .frame ⟨.close,l,remote,[]⟩ ∉ s.queued

theorem failed_step (h : ∀ c, s.calls i = some c → c.phase = .failed e) (hi : s.calls i ≠ none)
    (hstep : Steps s a s') : ∀ c, s'.calls i = some c → c.phase = .failed e := by
  have hmove : ∀ {k : ℕ} {c c' : Call}, s.calls k = some c → (∀ e, c.phase ≠ .failed e) →
      ∀ d, Function.update s.calls k (some c') i = some d → d.phase = .failed e :=
    fun hc hp => update_keeps h hc fun hf => absurd hf (hp _)
  have hsettled : ∀ {k : ℕ} {c c' : Call} (m : UInt32), s.calls k = some c → (∀ e, c.phase ≠ .failed e) →
      ∀ d, Function.update (s.settle m .gone).calls k (some c') i = some d → d.phase = .failed e := by
    intro k c c' m hc hp
    exact update_to (settle_keeps h (fun _ hf => hf) m) fun hki => absurd (h c (hki ▸ hc)) (hp _)
  cases hstep with
  | start hnew halive => exact update_to h fun hki => absurd (hki ▸ hnew) hi
  | file hc hp | send hc hp hw | sendFailed hc hp hw | opened hc hp hr | refused hc hp hr | forsaken hc hp hr
    | elapse hc hp hr | abortStream hc hp | read hc hp hrx | leave ha hc hp hrx hcl | closerUnfile hc hp hcl
    | sendClose hc hp hcl hw | closeLost hc hp hcl hw =>
    exact hmove hc (by simp [hp])
  | register hc hp | abortPending hc hp => exact hsettled _ hc (by simp [hp])
  | cancel hc hp => exact hmove hc (by rcases hp with hp | hp <;> simp [hp])
  | okay hr hm | fail hr hm | clse hr hm => exact settle_keeps h (fun _ hf => hf) _
  | deliver hr hc hrx => exact update_keeps h hc id
  | drain hr => exact answer_keeps h fun _ hf => hf
  | _ => exact h

theorem Orphan.unlisted (h : Orphan i l s) (j : ℕ) : s.streams l ≠ some j := by
  obtain ⟨c,e,hc,rfl,hp⟩ := h.failed
  intro hj
  obtain ⟨d,hd,hl,hfiles⟩ := h.maps.stream_call _ j hj
  obtain rfl := h.distinct j i d c hd hc hl
  cases hc.symm.trans hd
  rw [hp] at hfiles
  exact hfiles

theorem orphan_reader (h : Orphan i l s) (hstep : Steps s a s') : ¬s'.reader.about l := by
  have hreader := h.reader
  cases hstep with
  | register hc hp | abortPending hc hp => simpa [setCall] using hreader
  | okay hr hm | fail hr hm => simpa using hreader
  | clse hr hm | stop ha hr | forget hr | enqueue hr hw | enqueueFailed hr hw | drain hr => exact not_false
  | wrte hr hm hi =>
    intro hl
    exact h.unlisted _ (hl ▸ hi)
  | deliver hr hc hrx => exact fun hm => by cases hm.1
  | undelivered hr hc hrx =>
    rw [hr] at hreader
    exact hreader
  | unfile hr =>
    rw [hr] at hreader
    exact fun hm => hreader hm.2
  | _ => exact hreader

theorem orphan_queued (h : Orphan i l s) (hstep : Steps s a s') (remote : UInt32) :
    .frame ⟨.close,l,remote,[]⟩ ∉ s'.queued := by
  have hqueued := h.queued remote
  cases hstep with
  | register hc hp | abortPending hc hp => simpa [setCall] using hqueued
  | okay hr hm | fail hr hm | clse hr hm => simpa using hqueued
  | send hc hp hw => simpa [setCall,pushed] using hqueued
  | enqueue hr hw =>
    have hreader := h.reader
    rw [hr] at hreader
    simp only [pushed,mem_append,mem_singleton,not_or]
    refine ⟨hqueued,?_⟩
    intro hm
    cases hm
    exact hreader ⟨rfl,rfl⟩
  | write hc hp hw => simpa [pushed] using hqueued
  | @sendClose k c r hc hp hcl hw =>
    simp only [pushed,setCall,mem_append,mem_singleton,not_or]
    refine ⟨hqueued,?_⟩
    intro hm
    cases hm
    obtain ⟨d,e,hd,hl,hfailed⟩ := h.failed
    obtain rfl := h.distinct i k d c hd hc hl
    cases hc.symm.trans hd
    cases hp.symm.trans hfailed
  | _ => exact hqueued

/-- Nobody ever closes that stream. -/
theorem orphan_step (h : Orphan i l s) (hf : Fresh s a) (hstep : Steps s a s') : Orphan i l s' := by
  refine ⟨maps_step h.maps hstep,distinct_step h.distinct hf hstep,?_,orphan_reader h hstep,orphan_queued h hstep⟩
  obtain ⟨c,e,hc,hl,hp⟩ := h.failed
  obtain ⟨c',hc',hkept⟩ := steps_kept hstep hc
  refine ⟨c',e,hc',hkept.localId.trans hl,?_⟩
  refine failed_step ?_ (by simp [hc]) hstep c' hc'
  intro d hd
  cases hc.symm.trans hd
  exact hp

end

/-- A label that is in time wherever it is taken. -/
def plain : Label → Bool
  | .call _ (.start _) | .call _ .cancel | .reader (.frame _) => false
  | _ => true

theorem timely_of_plain (s : State) (a : Label) (h : plain a) : Timely s a := by
  unfold Timely
  split
  · cases h
  · cases h
  · cases h
  · trivial

def asking : List Label := [.call 0 .file,.call 0 .register,.call 0 .send]

/-- The stream is accepted, returned and dropped, and the device is told. -/
def leaving : List Label := [.call 0 .take,.stream 0 .drop,.stream 0 .unfile,.stream 0 .sendClose]

theorem open_calls_owned_leaving : ∃ s c, exec step {} (Label.call 0 (.start [])::(asking++
      Label.reader (.frame ⟨.okay,7,2,[]⟩)::leaving)) = some s ∧ s.calls 0 = some c ∧ c.receiving = false ∧ Owned s c 7 := by
  have htimely : Meets step Timely {} (Label.call 0 (.start [])::(asking++Label.reader (.frame ⟨.okay,7,2,[]⟩)::leaving)) := by
    refine meets_cons rfl (fun _ _ hc => nomatch hc) ?_
    refine meets_cons rfl trivial (meets_cons rfl trivial (meets_cons rfl trivial (meets_cons rfl ?_ ?_)))
    · intro _ i c hc _
      by_cases hi : i = 0
      · subst hi
        cases hc
        exact ⟨not_false,not_false⟩
      · simp [setCall,settle,pushed,hi] at hc
    · exact meets_of_check timely_of_plain rfl
  exact ⟨_,_,rfl,rfl,rfl,(open_calls_owned rfl htimely).2.2 0 _ 7 rfl rfl⟩

/-- The call has timed out when the OKAY comes. -/
def tooLate : List Label :=
  Label.call 0 (.start [])::(asking++[Label.call 0 .elapse,Label.call 0 .abortPending,Label.call 0 .abortStream,
    Label.reader (.frame ⟨.okay,7,2,[]⟩)])

theorem late_okay_never_closed : ∃ s c, exec step {} tooLate = some s ∧ s.calls 0 = some c ∧ c.phase = .failed .timeout ∧
    history step (hear 0) {} tooLate none = some 7 ∧
    ∀ as t, Meets step Fresh s as → exec step s as = some t → ∀ remote, .frame ⟨.close,2,remote,[]⟩ ∉ t.queued := by
  have hs : exec step {} tooLate = some _ := rfl
  have hfresh : Meets step Fresh {} tooLate :=
    meets_cons rfl (fun _ _ hc => nomatch hc) (meets_of_check fresh_of_startsNone rfl)
  have hqueued : ∀ remote, WriteReq.frame ⟨.close,2,remote,[]⟩ ∉ [.frame ⟨.open_,2,0,[0]⟩] := by simp
  have horphan : Orphan 0 2 _ := ⟨maps_run hs,distinct_run hs hfresh,⟨_,_,rfl,rfl,rfl⟩,not_false,hqueued⟩
  refine ⟨_,_,hs,rfl,rfl,rfl,?_⟩
  intro as t hf ht
  exact (exec_invariant_of_meets (fun _ _ _ ho hfresh hstep => orphan_step ho hfresh (step_steps hstep)) horphan hf ht).queued

end AdbShare.Connection
