import AdbShare.ConnectionMaps

/-! What becomes of streams and open calls when the reader task ends. It answers the calls that
have registered, but it leaves the data channels to the writer, which may never notice, and a
call that comes later waits for an answer that nobody can give. -/
namespace AdbShare.Connection

open Transition Function Option

/-- No answer, or that the connection is gone. -/
def Slot.dead : Slot → Prop
  | .empty | .gone | .sent (.error .disconnected) => True
  | _ => False

/-- The stream is open, or the call has been accepted, or it was dropped and has left its channel behind. -/
def Call.isOpen (c : Call) : Prop :=
  match c.phase with
  | .opened _ => c.closer ≠ .sending ∧ c.closer ≠ .done
  | .cancelled => True
  | .failed _ => False
  | _ => c.reply.accepts

/-- When the reader ends, the writer has ended or no stream is open. Once the writer has ended, the device accepts
only calls that had come before that; once one of them has, no call is dropped with its channel registered; and once
the reader has, no OPEN is queued for a call that has no answer. -/
def Orderly (s : State) : Label → Prop
  | .reader .drain => s.writer.over ∨ ∀ i c, s.calls i = some c → ¬c.isOpen
  | .reader (.frame m) => m.command = .okay → s.writer.over →
      ∀ i, s.pending m.arg1 = some i → s.streams m.arg1 ≠ some i
  | .call i .send => s.reader = .ended → s.writer = .closed ∨ ∀ c, s.calls i = some c → c.reply ≠ .empty
  | .call i .cancel => s.reader = .ended ∨ s.writer.over → ∀ c, s.calls i = some c → s.streams c.localId ≠ some i
  | _ => True

/-- The data channel is registered at most for a call that is under way and has not been accepted. -/
def Unopened (streams : UInt32 → Option ℕ) (i : ℕ) (c : Call) : Prop :=
  streams c.localId = some i → c.phase.inProgress ∧ ¬c.reply.accepts

/-- The data channel of a stream that was closed is no longer registered. -/
def Closed (streams : UInt32 → Option ℕ) (i : ℕ) (c : Call) : Prop :=
  c.closer = .sending ∨ c.closer = .done → (∃ remote, c.phase = .opened remote) ∧ streams c.localId ≠ some i

def Answered (c : Call) : Prop := c.phase = .waiting → c.reply ≠ .empty

/-- The call can only fail, and as disconnected; or it is dropped. -/
def Doomed (c : Call) : Prop :=
  match c.phase with
  | .numbered | .filed | .registered | .waiting => c.reply.dead
  | .aborting e | .aborted e | .failed e => e = .disconnected
  | .opened _ => False
  | .cancelled => True

variable {i room : ℕ} {c : Call} {s s' : State} {doomed : ℕ → Prop} {a : Label} {remote : UInt32}

section

variable {streams streams' : UInt32 → Option ℕ} {slot : Slot}

theorem Unopened.unfile (hs : streams' c.localId = some i → streams c.localId = some i) (h : Unopened streams i c) :
    Unopened streams' i c :=
  fun hi => h (hs hi)

theorem Unopened.answer (hslot : ¬slot.accepts) (c : Call) (h : Unopened streams i c) :
    Unopened streams i { c with reply := slot } :=
  fun hi => ⟨(h hi).1,hslot⟩

theorem filed_cases {l l' : UInt32} {j : ℕ} (h : update streams l (some j) l' = some i) : i = j ∨ streams l' = some i := by
  by_cases hl : l' = l
  · subst hl
    rw [update_self] at h
    exact .inl (some.inj h).symm
  · rw [update_of_ne hl] at h
    exact .inr h

end

/-- Once one of the two tasks has ended, no stream gets a data channel. -/
theorem unopened_step (hover : s.reader = .ended ∨ s.writer.over) (hm : Maps s.calls s.pending s.streams)
    (h : ∀ d, s.calls i = some d → Unopened s.streams i d) (ho : Orderly s a) (hstep : Steps s a s') :
    ∀ d, s'.calls i = some d → Unopened s'.streams i d := by
  have hrefused : ∀ slot : Slot, ¬slot.accepts → ∀ l d, (s.settle l slot).calls i = some d →
      Unopened (s.settle l slot).streams i d := by
    intro slot hslot l
    rw [settle_streams]
    exact settle_keeps h (Unopened.answer hslot) l
  cases hstep with
  | start hnew halive => exact update_to h fun _ _ => ⟨trivial,not_false⟩
  | @file k c hc hp =>
    have hempty := hm.early_empty k c hc (hp ▸ trivial)
    intro d hd
    obtain ⟨rfl,rfl⟩ | ⟨hne,hd⟩ := update_some_cases hd
    · exact fun _ => ⟨trivial,hempty ▸ not_false⟩
    · exact (h d hd).unfile fun hi => (filed_cases hi).resolve_left hne
  | @register k c hc hp =>
    have hempty := hm.early_empty k c hc (hp ▸ trivial)
    exact update_to (hrefused .gone not_false c.localId) fun _ _ => ⟨trivial,hempty ▸ not_false⟩
  | send hc hp hw | sendFailed hc hp hw | refused hc hp hr | forsaken hc hp hr | elapse hc hp hr =>
    exact update_keeps h hc fun hd hi => ⟨trivial,(hd hi).2⟩
  | opened hc hp hr =>
    refine update_keeps h hc fun hd hi => absurd ?_ (hd hi).2
    rw [hr]
    trivial
  | @abortPending k c e hc hp =>
    refine update_to (hrefused .gone not_false c.localId) ?_
    rintro rfl hi
    rw [State.setCall,settle_streams] at hi
    exact ⟨trivial,(h c hc hi).2⟩
  | abortStream hc hp =>
    refine update_to (fun d hd => (h d hd).unfile fun hi => (unfile_cases hi).1) fun _ hi => ?_
    exact absurd rfl (unfile_cases hi).2
  | @cancel k c hc hp =>
    refine update_to h ?_
    rintro rfl hi
    exact absurd hi (ho hover c hc)
  | @okay m hr hokay =>
    intro d hd
    rw [settle_calls] at hd
    obtain ⟨c,hc,rfl⟩ := map_eq_some_iff.mp hd
    rw [settle_streams]
    split
    · rename_i hpending
      obtain ⟨c',hc',hid,-⟩ := hm.pending_call m.arg1 i hpending
      cases hc.symm.trans hc'
      refine fun hi => absurd ?_ (ho hokay (hover.resolve_left fun hend => ?_) i hpending)
      · rw [← hid]
        exact hi
      · cases hr.symm.trans hend
    · exact h c hc
  | fail hr hm | clse hr hm => exact hrefused (.sent (.error _)) not_false _
  | wrte hr hm hi | ignored hr hm hw | stop ha hr | undelivered hr hc hrx | enqueue hr hw | enqueueFailed hr hw
    | writer ha hw hw' | write hc hp hw | dropConnection => exact h
  | forget hr | unfile hr => exact fun d hd => (h d hd).unfile fun hi => (unfile_cases hi).1
  | drain hr => exact answer_keeps h (Unopened.answer not_false)
  | drainStreams hw => exact fun d hd hi => by cases hi
  | read hc hp hrx => exact update_keeps h hc fun hd => by simpa [Unopened] using hd
  | deliver hr hc hrx => exact update_keeps h hc id
  | leave ha hc hp hrx hcl | sendClose hc hp hcl hw | closeLost hc hp hcl hw => exact update_keeps h hc id
  | closerUnfile hc hp hcl => exact update_keeps (fun d hd => (h d hd).unfile fun hi => (unfile_cases hi).1) hc id

theorem closed_step (h : ∀ d, s.calls i = some d → Closed s.streams i d) (hstep : Steps s a s') :
    ∀ d, s'.calls i = some d → Closed s'.streams i d := by
  have hsettle : ∀ l slot d, (s.settle l slot).calls i = some d → Closed (s.settle l slot).streams i d := by
    intro l slot
    rw [settle_streams]
    exact settle_keeps h (fun _ hd => hd) l
  have hunfile : ∀ l d, s.calls i = some d → Closed (update s.streams l none) i d :=
    fun l d hd hcl => ⟨(h d hd hcl).1,fun hi => (h d hd hcl).2 (unfile_cases hi).1⟩
  have hcalls : ∀ {k : ℕ} {c : Call}, s.calls k = some c → (∀ remote, c.phase ≠ .opened remote) → k = i →
      ¬(c.closer = .sending ∨ c.closer = .done) := by
    rintro k c hc hp rfl hcl
    obtain ⟨remote,hremote⟩ := (h c hc hcl).1
    exact hp remote hremote
  cases hstep with
  | start hnew halive => exact update_to h fun _ hcl => by rcases hcl with hcl | hcl <;> cases hcl
  | @file k c hc hp =>
    intro d hd
    obtain ⟨rfl,rfl⟩ | ⟨hne,hd⟩ := update_some_cases hd
    · exact fun hcl => (hcalls hc (by simp [hp]) rfl hcl).elim
    · exact fun hcl => ⟨(h d hd hcl).1,fun hi => (h d hd hcl).2 ((filed_cases hi).resolve_left hne)⟩
  | register hc hp | abortPending hc hp => exact update_to (hsettle _ _) fun hk hcl => (hcalls hc (by simp [hp]) hk hcl).elim
  | send hc hp hw | sendFailed hc hp hw | refused hc hp hr | forsaken hc hp hr | elapse hc hp hr =>
    exact update_to h fun hk hcl => (hcalls hc (by simp [hp]) hk hcl).elim
  | cancel hc hp => exact update_to h fun hk hcl => (hcalls hc (by rcases hp with hp | hp <;> simp [hp]) hk hcl).elim
  | abortStream hc hp => exact update_to (hunfile _) fun hk hcl => (hcalls hc (by simp [hp]) hk hcl).elim
  | opened hc hp hr => exact update_to h fun _ hcl => by rcases hcl with hcl | hcl <;> cases hcl
  | okay hr hm | fail hr hm | clse hr hm => exact hsettle _ _
  | wrte hr hm hi | ignored hr hm hw | stop ha hr | undelivered hr hc hrx | enqueue hr hw | enqueueFailed hr hw
    | writer ha hw hw' | write hc hp hw | dropConnection => exact h
  | forget hr | unfile hr => exact hunfile _
  | drain hr => exact answer_keeps h fun _ hd => hd
  | drainStreams hw => exact fun d hd hcl => ⟨(h d hd hcl).1,fun hi => by cases hi⟩
  | deliver hr hc hrx => exact update_keeps h hc id
  | @read k c remote room hc hp hrx =>
    obtain ⟨queue,incoming,returned,hread⟩ := pollRead_frame c (s.hasSender k c) room
    rw [hread]
    exact update_keeps h hc id
  | @leave k a c remote closer receiving ha hc hp hrx hcl =>
    refine update_keeps h hc fun hd hclosed => ?_
    obtain ⟨rfl,-⟩ | rfl := hcl
    · exact hd hclosed
    · rcases hclosed with hclosed | hclosed <;> cases hclosed
  | sendClose hc hp hcl hw | closeLost hc hp hcl hw => exact update_keeps h hc fun hd _ => hd (.inl hcl)
  | closerUnfile hc hp hcl => exact update_to (hunfile _) fun _ _ => ⟨⟨_,hp⟩,by simp⟩

theorem answered_step (hend : s.reader = .ended) (h : ∀ d, s.calls i = some d → Answered d) (ho : Orderly s a)
    (hstep : Steps s a s') : ∀ d, s'.calls i = some d → Answered d := by
  have hgone : ∀ l d, (s.settle l .gone).calls i = some d → Answered d :=
    settle_keeps h fun d _ _ hempty => by cases hempty
  cases hstep with
  | start hnew halive => exact update_to h fun _ hw => by cases hw
  | file hc hp | sendFailed hc hp hw | opened hc hp hr | refused hc hp hr | forsaken hc hp hr | cancel hc hp
    | abortStream hc hp => exact update_to h fun _ hw => by cases hw
  | register hc hp | abortPending hc hp => exact update_to (hgone _) fun _ hw => by cases hw
  | @send k c hc hp hw =>
    refine update_to h ?_
    rintro rfl -
    exact (ho hend).resolve_left hw c hc
  | elapse hc hp hr => exact update_to h fun _ hw => by cases hw
  | okay hr hm | fail hr hm | clse hr hm | deliver hr hc hrx | drain hr => cases hend.symm.trans hr
  | wrte hr hm hi | ignored hr hm hw | stop ha hr | undelivered hr hc hrx | enqueue hr hw | enqueueFailed hr hw
    | writer ha hw hw' | write hc hp hw | dropConnection | forget hr | unfile hr | drainStreams hw => exact h
  | read hc hp hrx => exact update_keeps h hc fun hd => by simpa [Answered] using hd
  | leave ha hc hp hrx hcl | sendClose hc hp hcl hw | closeLost hc hp hcl hw | closerUnfile hc hp hcl =>
    exact update_keeps h hc id

theorem doomed_step (hend : s.reader = .ended) (hs : ∀ i c, s.calls i = some c → Answered c)
    (h : ∀ d, s.calls i = some d → Doomed d) (hstep : Steps s a s') : ∀ d, s'.calls i = some d → Doomed d := by
  cases hstep with
  | start hnew halive => exact update_to h fun _ => trivial
  | file hc hp | send hc hp hw | abortStream hc hp => exact update_keeps h hc fun hd => by simpa [Doomed,hp] using hd
  | register hc hp | abortPending hc hp =>
    refine update_to (settle_keeps h (fun c hd => ?_) _) ?_
    · unfold Doomed at hd ⊢
      split <;> simp_all [Slot.dead]
    rintro rfl
    simpa [Doomed,hp] using h _ hc
  | sendFailed hc hp hw | forsaken hc hp hr => exact update_keeps h hc fun _ => rfl
  | opened hc hp hr => exact update_keeps h hc fun hd => by simp [Doomed,hp,hr,Slot.dead] at hd
  | @refused k c e hc hp hr =>
    refine update_keeps h hc fun hd => ?_
    unfold Doomed at hd
    rw [hp,hr] at hd
    cases e with
    | disconnected => rfl
    | _ => exact hd.elim
  | elapse hc hp hr => exact absurd hr (hs _ _ hc hp)
  | cancel hc hp => exact update_keeps h hc fun _ => trivial
  | okay hr hm | fail hr hm | clse hr hm | deliver hr hc hrx | drain hr => cases hend.symm.trans hr
  | wrte hr hm hi | ignored hr hm hw | stop ha hr | forget hr | undelivered hr hc hrx | unfile hr
    | enqueue hr hw | enqueueFailed hr hw | writer ha hw hw' | drainStreams hw | write hc hp hw | dropConnection =>
    exact h
  | read hc hp hrx | leave ha hc hp hrx hcl | closerUnfile hc hp hcl | sendClose hc hp hcl hw
    | closeLost hc hp hcl hw =>
    exact update_keeps h hc fun hd => by simp [Doomed,hp] at hd

/-- The call has been given no answer yet. -/
def Unanswered (c : Call) : Prop :=
  (c.phase.early ∨ c.phase.listens) ∧ c.reply = .empty

theorem doomed_drain (h : ∀ c, s.calls i = some c → Unanswered c) : ∀ d, ((s.calls i).map fun c =>
      if s.pending c.localId = some i then { c with reply := .sent (.error .disconnected) } else c) = some d →
      Doomed d := by
  intro d hd
  obtain ⟨c,hc,rfl⟩ := map_eq_some_iff.mp hd
  obtain ⟨hp,hr⟩ := h c hc
  obtain ⟨slot,hslot,hcall⟩ : ∃ slot : Slot, slot.dead ∧
      (if s.pending c.localId = some i then { c with reply := .sent (.error .disconnected) } else c) =
        { c with reply := slot } := by
    split
    · exact ⟨.sent (.error .disconnected),trivial,rfl⟩
    · exact ⟨.empty,trivial,by rw [← hr]⟩
  rw [hcall]
  unfold Doomed
  split
  · exact hslot
  · exact hslot
  · exact hslot
  · exact hslot
  all_goals simp_all [Phase.early,Phase.listens]

/-- What holds up to the end of the reader. -/
structure Filed (s : State) : Prop where
  maps : Maps s.calls s.pending s.streams
  closed : ∀ i c, s.calls i = some c → Closed s.streams i c
  unopened : s.writer.over → ∀ i c, s.calls i = some c → Unopened s.streams i c

theorem over_step (hstep : Steps s a s') : (s.writer.over → s'.writer.over) ∧
    (s'.writer.over → s.writer.over ∨ ∀ i, s'.streams i = none) := by
  cases hstep with
  | writer ha hw hw' ho => exact ⟨ho.mpr,fun h => .inl (ho.mp h)⟩
  | drainStreams hw => exact ⟨fun _ => trivial,fun _ => .inr fun _ => rfl⟩
  | register hc hp | abortPending hc hp | okay hr hm | fail hr hm | clse hr hm =>
    simp only [State.setCall,settle_writer]
    exact ⟨id,.inl⟩
  | _ => exact ⟨id,.inl⟩

theorem Filed.step (h : Filed s) (ho : Orderly s a) (hstep : Steps s a s') : Filed s' := by
  refine ⟨maps_step h.maps hstep,fun i => closed_step (h.closed i) hstep,fun hover i => ?_⟩
  obtain hover | hnone := (over_step hstep).2 hover
  · exact unopened_step (.inr hover) h.maps (h.unopened hover i) ho hstep
  · exact fun d _ hi => nomatch (hnone _).symm.trans hi

theorem filed_run {as : List Label} (ho : Meets step Orderly {} as) (h : exec step {} as = some s) : Filed s := by
  refine exec_invariant_of_meets (fun _ _ _ hs hc hstep => hs.step hc (step_steps hstep)) ?_ ho h
  refine ⟨maps_run (show exec step {} [] = _ from rfl),?_,False.elim⟩
  intro i c hc
  cases hc

/-- The reader is gone, and each of these calls can only fail. -/
structure Ended (doomed : ℕ → Prop) (s : State) : Prop where
  ended : s.reader = .ended
  maps : Maps s.calls s.pending s.streams
  unopened : ∀ i c, s.calls i = some c → Unopened s.streams i c
  answered : ∀ i c, s.calls i = some c → Answered c
  fails : ∀ i, doomed i → ∀ d, s.calls i = some d → Doomed d

theorem ended_stays (hend : s.reader = .ended) (hstep : Steps s a s') : s'.reader = .ended := by
  cases hstep with
  | wrte hr hm hi | stop ha hr | forget hr | deliver hr hc hrx | undelivered hr hc hrx | unfile hr | enqueue hr hw
    | enqueueFailed hr hw | clse hr hm => cases hend.symm.trans hr
  | drain hr => rfl
  | register hc hp | abortPending hc hp | okay hr hm | fail hr hm => exact (settle_reader ..).trans hend
  | _ => exact hend

theorem ended_step (h : Ended doomed s) (ho : Orderly s a) (hstep : Steps s a s') : Ended doomed s' where
  ended := ended_stays h.ended hstep
  maps := maps_step h.maps hstep
  unopened i := unopened_step (.inl h.ended) h.maps (h.unopened i) ho hstep
  answered i := answered_step h.ended (h.answered i) ho hstep
  fails i hi := doomed_step h.ended h.answered (h.fails i hi) hstep

/-- A call without an open stream has no data channel to read from. -/
theorem Filed.unopened_of_not_isOpen (h : Filed s) (hc : s.calls i = some c) (hopen : ¬c.isOpen) :
    Unopened s.streams i c := by
  intro hi
  obtain ⟨c',hc',-,hfiles⟩ := h.maps.stream_call _ i hi
  cases hc.symm.trans hc'
  cases hp : c.phase with
  | opened remote =>
    simp only [Call.isOpen,hp] at hopen
    exact absurd hi (h.closed i c hc (by grind)).2
  | cancelled =>
    simp only [Call.isOpen,hp] at hopen
    exact absurd trivial hopen
  | failed e =>
    rw [hp] at hfiles
    exact hfiles.elim
  | _ =>
    simp only [Call.isOpen,hp] at hopen
    exact ⟨trivial,hopen⟩

theorem ended_drain (h : Filed s) (ho : Orderly s (.reader .drain)) (hstep : Steps s (.reader .drain) s') :
    Ended (fun i => ∀ c, s.calls i = some c → Unanswered c) s' := by
  have hmaps := maps_step h.maps hstep
  cases hstep with
  | stop ha hr => rcases ha with ha | ha <;> cases ha
  | drain hr =>
    refine ⟨rfl,hmaps,fun i => answer_keeps (fun c hc => ?_) (Unopened.answer not_false),?_,fun _ => doomed_drain⟩
    · obtain hover | hopen := ho
      · exact h.unopened hover i c hc
      · exact h.unopened_of_not_isOpen hc (hopen i c hc)
    · intro j d hd hw
      obtain ⟨c,hc,rfl⟩ := map_eq_some_iff.mp hd
      split at hw
      · rename_i hj
        rw [if_pos hj]
        exact fun h => nomatch h
      · rename_i hj
        rw [if_neg hj]
        intro hempty
        exact hj (h.maps.pending_of_empty j c hc (hw ▸ trivial) hempty)

theorem Ended.hasSender (h : Ended doomed s)
    (hc : s.calls i = some c) (hp : c.phase = .opened remote) : s.hasSender i c = false := by
  have hfree : s.streams c.localId ≠ some i := by
    intro hstream
    have hprogress := (h.unopened i c hc hstream).1
    rw [hp] at hprogress
    exact hprogress
  simp [State.hasSender,h.ended,hp,hfree]

theorem pollRead_ready (c : Call) (hroom : room ≠ 0) : (pollRead c false room).1 ≠ .pending ∧
    (c.incoming = none → c.queue = [] → (pollRead c false room).1 = .ready []) := by
  constructor
  · unfold pollRead
    rw [if_neg hroom]
    split
    · simp
    · split <;> simp
  · intro hincoming hqueue
    simp [pollRead,hroom,hincoming,hqueue]

/-- The reader ends, and whatever happens after that in order: what is registered belongs to
calls that are about to fail, so reads of a stream report its end after the queued data; nobody
waits without an answer, and a call that had none, or comes later, only fails as disconnected. -/
theorem disconnect_settles {as bs : List Label} {s t : State} (h : exec step {} as = some s)
    (ho : Meets step Orderly {} (as++.reader .drain::bs)) (ht : exec step s (.reader .drain::bs) = some t) :
    (∀ i c, t.calls i = some c → t.streams c.localId = some i → c.phase.inProgress ∧ ¬c.reply.accepts) ∧
    (∀ i c remote room, t.calls i = some c → c.phase = .opened remote → room ≠ 0 →
      (pollRead c (t.hasSender i c) room).1 ≠ .pending ∧
      (c.incoming = none → c.queue = [] → (pollRead c (t.hasSender i c) room).1 = .ready [])) ∧
    (∀ i c, t.calls i = some c → c.phase = .waiting → c.reply ≠ .empty) ∧
    (∀ i, (∀ c, s.calls i = some c → Unanswered c) → ∀ c, t.calls i = some c → Doomed c) := by
  obtain ⟨u,hu,ht⟩ := exec_cons_iff.mp ht
  obtain ⟨hbefore,hrest⟩ := meets_append_iff.mp ho
  have hended := ended_drain (filed_run hbefore h) (hrest s h).1 (step_steps hu)
  have hinv := exec_invariant_of_meets (fun _ _ _ hi hc hstep => ended_step hi hc (step_steps hstep)) hended
    ((hrest s h).2 u hu) ht
  refine ⟨hinv.unopened,?_,hinv.answered,hinv.fails⟩
  intro i c remote room hc hp hroom
  rw [hinv.hasSender hc hp]
  exact pollRead_ready c hroom

/-- A stream has got data when the writer fails on the OPEN of another call; the reader ends after it. -/
def unplugged : List Label :=
  [.call 0 (.start []),.call 0 .file,.call 0 .register,.call 0 .send,.writer .recv,.writer .wrote,
   .reader (.frame ⟨.okay,7,2,[]⟩),.call 0 .take,.reader (.frame ⟨.write,7,2,[1]⟩),.reader .deliver,.reader .enqueue,
   .call 1 (.start []),.call 1 .file,.call 1 .register,.call 1 .send,.writer .recv,.writer .fail,.writer .drain,
   .writer .close,.reader .stop]

/-- The call fails, and so does one that comes later; the stream is read to its end. -/
def failing : List Label :=
  [.call 1 .take,.call 1 .abortPending,.call 1 .abortStream,.call 2 (.start []),.call 2 .file,.call 2 .register,
   .call 2 .send,.call 2 .abortPending,.call 2 .abortStream,.stream 0 (.read 1)]

/-- A step of a kind that is in order at all times. -/
def calm (s : State) : Label → Bool
  | .reader .drain => decide (s.writer = .closed)
  | .reader (.frame _) => decide (s.writer = .idle)
  | .call _ .send => decide (s.reader = .idle) || decide (s.writer = .closed)
  | .call _ .cancel => false
  | _ => true

theorem orderly_of_calm (s : State) (a : Label) (h : calm s a) : Orderly s a := by
  unfold Orderly
  split
  · rw [of_decide_eq_true h]
    exact .inl trivial
  · intro _ hover
    rw [of_decide_eq_true h] at hover
    exact hover.elim
  · intro hend
    rw [calm,hend] at h
    exact .inl (of_decide_eq_true h)
  · cases h
  · trivial

theorem disconnect_settles_unplugged : ∃ s t, exec step {} unplugged = some s ∧
    exec step s (.reader .drain::failing) = some t ∧
    (∃ c, t.calls 2 = some c ∧ c.phase = .failed .disconnected) ∧
    ∃ c, t.calls 0 = some c ∧ c.returned = [[1]] ∧ (pollRead c (t.hasSender 0 c) 1).1 = .ready [] := by
  obtain ⟨t,hrun⟩ := isSome_iff_exists.mp
    (by decide +kernel : (exec step {} (unplugged++.reader .drain::failing)).isSome)
  obtain ⟨s,hs,ht⟩ := exec_append_iff.mp hrun
  have hsettled := disconnect_settles hs
    (meets_of_check orderly_of_calm (by decide +kernel : check step calm {} (unplugged++.reader .drain::failing))) ht
  have hcalls : (exec step {} (unplugged++.reader .drain::failing)).bind (fun t => (t.calls 0).bind fun c =>
      (t.calls 2).map fun d => (c.phase,c.incoming,c.queue,c.returned,d.phase)) =
      some (.opened 7,none,[],[[1]],.failed .disconnected) := by decide +kernel
  rw [hrun,bind_some] at hcalls
  obtain ⟨c,hc,hrest⟩ := bind_eq_some_iff.mp hcalls
  obtain ⟨d,hd,hdata⟩ := map_eq_some_iff.mp hrest
  simp only [Prod.mk.injEq] at hdata
  obtain ⟨hphase,hincoming,hqueue,hreturned,hfailed⟩ := hdata
  exact ⟨s,t,hs,ht,⟨d,hd,hfailed⟩,c,hc,hreturned, (hsettled.2.1 0 c 7 1 hc hphase Nat.one_ne_zero).2 hincoming hqueue⟩

/-- The reader ends while the writer has nothing to write: the stream stays registered and its
read waits, and a call that comes later waits out its timeout. -/
theorem idle_writer_waits : ∃ t, exec step {}
      [.call 0 (.start []),.call 0 .file,.call 0 .register,.call 0 .send,.writer .recv,.writer .wrote,
       .reader (.frame ⟨.okay,7,2,[]⟩),.call 0 .take,.reader .stop,.reader .drain,
       .call 1 (.start []),.call 1 .file,.call 1 .register,.call 1 .send,.writer .recv,.writer .wrote,
       .call 1 .elapse,.call 1 .abortPending,.call 1 .abortStream] = some t ∧
    t.alive = true ∧ t.reader = .ended ∧
    (∃ c, t.calls 0 = some c ∧ c.phase = .opened 7 ∧ t.streams c.localId = some 0 ∧
      (pollRead c (t.hasSender 0 c) 1).1 = .pending) ∧
    ∃ d, t.calls 1 = some d ∧ d.phase = .failed .timeout :=
  ⟨_,rfl,rfl,rfl,⟨_,rfl,rfl,rfl,rfl⟩,_,rfl,rfl⟩

end AdbShare.Connection
