import AdbShare.ProxyPool
import AdbShare.Tally

/-! The capacity of the connection pool. A permit is held from `acquire` to the end of the
operation; connections in the pool, in use and being dialled never exceed `max_conns`. -/
namespace AdbShare.ProxyPool

open Transition Function Option State

/-- The caller has a permit. -/
@[simp] def Pc.holds : Pc → Prop
  | .idle | .permit _ | .done _ _ => False
  | _ => True

/-- The caller has a connection or dials one. -/
@[simp] def Pc.occupies : Pc → Prop
  | .idle | .permit _ | .done _ _ | .pop _ => False
  | _ => True

/-- The connection that was handed out to the caller and on which it makes its request. -/
@[simp] def Pc.uses : Pc → Option ℕ
  | .enter c _ | .lock c _ | .send c _ | .lockRx c _ | .recv c _ => some c
  | _ => none

/-- The pool and the callers that have handed their connection back and are about to drop their
permit. -/
structure Client where
  base : State
  leaving : ℕ → Bool := fun _ => false

/-- `withdraw` is an operation that makes no request after all, as `close` of a file that a clone
has closed. `release` takes two steps: first the connection, then the permit. -/
inductive ClientAct
  | pool (l : Label)
  | withdraw (t : ℕ) (e : ProxyError)
  | handBack (t : ℕ)
  | returnPermit (t : ℕ)

def clientStep (s : Client) : ClientAct → Option Client
  | .pool (.caller _ .release) => none
  | .pool (.caller t a) =>
    if s.leaving t then none else (callerStep s.base t a).map fun base => { s with base := base }
  | .pool (.conn c a) => (connStep s.base c a).map fun base => { s with base := base }
  | .withdraw t e =>
    match s.base.pcs t with
    | .enter c r => some { s with base := s.base.setPc t (.release c r (.error e)) }
    | _ => none
  | .handBack t => (callerStep s.base t .release).map fun base =>
      { base := { base with permits := s.base.permits }, leaving := update s.leaving t true }
  | .returnPermit t =>
    if s.leaving t then
      some { base := { s.base with permits := s.base.permits+1 }, leaving := update s.leaving t false }
    else none

/-- What a step of a caller does to the capacity. -/
inductive Effect (s : State) (t : ℕ) (s' : State) : Prop
  | keep (hholds : (s'.pcs t).holds ↔ (s.pcs t).holds) (hoccupies : (s'.pcs t).occupies ↔ (s.pcs t).occupies)
      (hpool : s'.pool = s.pool) (hpermits : s'.permits = s.permits)
  | acquire (hbefore : ¬(s.pcs t).holds) (hafter : (s'.pcs t).holds) (hbefore' : ¬(s.pcs t).occupies)
      (hafter' : ¬(s'.pcs t).occupies) (hpool : s'.pool = s.pool) (hpermits : s.permits = s'.permits+1)
  | take (hbefore : (s.pcs t).holds) (hafter : (s'.pcs t).holds) (hbefore' : ¬(s.pcs t).occupies)
      (hafter' : (s'.pcs t).occupies) (hpool : s.pool = [] ∧ s'.pool = [] ∨ ∃ c, s.pool = c::s'.pool)
      (hpermits : s'.permits = s.permits)
  | retry (hbefore : (s.pcs t).holds) (hafter : (s'.pcs t).holds) (hbefore' : (s.pcs t).occupies)
      (hafter' : ¬(s'.pcs t).occupies) (hpool : s'.pool = s.pool) (hpermits : s'.permits = s.permits)
  | finish (hbefore : (s.pcs t).holds) (hafter : ¬(s'.pcs t).holds) (hbefore' : (s.pcs t).occupies)
      (hafter' : ¬(s'.pcs t).occupies) (hpool : s'.pool = s.pool ∨ ∃ c, s'.pool = c::s.pool)
      (hpermits : s'.permits = s.permits+1)

variable {t c n : ℕ} {pc : Pc} {a : ConnAct} {base : State}

section

variable {s s' : State}

theorem callerSteps_frame (h : CallerSteps s t s') : ∀ u, u ≠ t → s'.pcs u = s.pcs u := by
  cases h <;> exact fun u hu => update_of_ne hu ..

@[simp] theorem setPc_self (s : State) (t : ℕ) (pc : Pc) : (s.setPc t pc).pcs t = pc := update_self ..

theorem holds_of_locks (h : pc.locks = some c) : pc.holds ∧ pc.occupies := by
  cases pc <;> cases h <;> exact ⟨trivial,trivial⟩

theorem callerSteps_effect (h : CallerSteps s t s') : Effect s t s' := by
  cases h with
  | start hpc =>
    have hout : ¬(s.pcs t).holds ∧ ¬(s.pcs t).occupies := by
      rcases hpc with hpc | ⟨q,o,hpc⟩ <;> simp [hpc]
    exact .keep (iff_of_false (by simp) hout.1) (iff_of_false (by simp) hout.2) rfl rfl
  | acquired hpc hpermits =>
    exact .acquire (by simp [hpc]) (by simp) (by simp [hpc]) (by simp) rfl (Nat.succ_pred hpermits).symm
  | unserved hpc ho | discard hpc hu | handOut hpc hu | dialed hpc | refuse hpc | enter hpc | locked hpc hlock
  | sent hpc | lockedRx hpc => exact .keep (by simp [hpc]) (by simp [hpc]) rfl rfl
  | unsent hpc | received hpc hq | ended hpc hdone => exact .keep (by simp [leave,hpc]) (by simp [leave,hpc]) rfl rfl
  | empty hpc hpool => exact .take (by simp [hpc]) (by simp) (by simp [hpc]) (by simp) (.inl ⟨hpool,hpool⟩) rfl
  | popped hpc hpool => exact .take (by simp [hpc]) (by simp) (by simp [hpc]) (by simp) (.inr ⟨_,hpool⟩) rfl
  | redial hpc => exact .retry (by simp [hpc]) (by simp) (by simp [hpc]) (by simp) rfl rfl
  | undialed hpc ho => exact .finish (by simp [hpc]) (by simp) (by simp [hpc]) (by simp) (.inl rfl) rfl
  | timeout hpc hreq =>
    exact .keep (iff_of_true (by simp [leave]) (holds_of_locks hpc).1)
      (iff_of_true (by simp [leave]) (holds_of_locks hpc).2) rfl rfl
  | abandon hpc hreq =>
    have hin : (s.pcs t).holds ∧ (s.pcs t).occupies := hpc.elim (fun hpc => by simp [hpc]) holds_of_locks
    exact .finish hin.1 (by simp [abandon]) hin.2 (by simp [abandon]) (.inl rfl) rfl
  | release hpc hpool =>
    exact .finish (by simp [hpc]) (by simp) (by simp [hpc]) (by simp) (hpool.imp_right fun h => ⟨_,h.1⟩) rfl

end

/-- Neither in the pool nor in use is a connection poisoned, and a locked one is locked by the
caller that makes a request on it. -/
structure Clean (s : State) : Prop where
  pooled : ∀ c ∈ s.pool, (s.conns c).poisoned = false
  used : ∀ t c, (s.pcs t).uses = some c → (s.conns c).poisoned = false
  locked : ∀ t c, (s.conns c).reqLock = some t → (s.pcs t).locks = some c

section

variable {s s' : State}

theorem conn_of_uses (h : pc.uses = some c) : pc.conn = some c := by
  cases pc <;> cases h <;> rfl

theorem uses_of_locks (h : pc.locks = some c) : pc.uses = some c := by
  cases pc <;> cases h <;> rfl

/-- A caller without a lock moves on. -/
theorem Clean.step_pc (h : Clean s) (t : ℕ) (pc : Pc) (hlocks : (s.pcs t).locks = none)
    (huses : ∀ c, pc.uses = some c → (s.conns c).poisoned = false) : Clean (s.setPc t pc) := by
  refine ⟨h.pooled,?_,?_⟩
  · intro u c hu
    by_cases hut : u = t
    · subst hut
      rw [setPc_self] at hu
      exact huses c hu
    · exact h.used u c ((congrArg Pc.uses (update_of_ne hut ..)).symm.trans hu)
  · intro u c hu
    have hold := h.locked u c hu
    have hut : u ≠ t := by
      rintro rfl
      cases hlocks.symm.trans hold
    exact (congrArg Pc.locks (update_of_ne hut ..)).trans hold

theorem Clean.step_conn (h : Clean s) (hi : Inv s) (t c : ℕ) (k : Conn) (pc : Pc) (hown : (s.pcs t).conn = some c)
    (hlocks : ∀ d, (s.pcs t).locks = some d → d = c) (huses : ∀ d, pc.uses = some d → d = c ∧ k.poisoned = false)
    (hlock : ∀ u, k.reqLock = some u → u = t ∧ pc.locks = some c) : Clean ((s.setConn c k).setPc t pc) := by
  have hother : ∀ d, d ≠ c → update s.conns c k d = s.conns d := fun d hd => update_of_ne hd ..
  refine ⟨?_,?_,?_⟩
  · intro d hd
    have hne : d ≠ c := fun he => hi.conns.held_unpooled t c hown (he ▸ hd)
    exact (congrArg Conn.poisoned (hother d hne)).trans (h.pooled d hd)
  · intro u d hu
    by_cases hut : u = t
    · subst hut
      rw [setPc_self] at hu
      obtain ⟨rfl,hk⟩ := huses d hu
      exact (congrArg Conn.poisoned (update_self ..)).trans hk
    · have hu : (s.pcs u).uses = some d := (congrArg Pc.uses (update_of_ne hut ..)).symm.trans hu
      have hne : d ≠ c := fun he => hut (hi.conns.held_unique u t c (he ▸ conn_of_uses hu) hown)
      exact (congrArg Conn.poisoned (hother d hne)).trans (h.used u d hu)
  · intro u d hu
    by_cases hd : d = c
    · subst hd
      obtain ⟨rfl,hpc⟩ := hlock u ((congrArg Conn.reqLock (update_self ..)).symm.trans hu)
      rw [setPc_self]
      exact hpc
    · have hold := h.locked u d ((congrArg Conn.reqLock (hother d hd)).symm.trans hu)
      have hut : u ≠ t := by
        rintro rfl
        exact hd (hlocks d hold)
      exact (congrArg Pc.locks (update_of_ne hut ..)).trans hold

theorem Clean.withRest (h : Clean s) (permits nextId nextConn : ℕ) :
    Clean { s with permits := permits, nextId := nextId, nextConn := nextConn } := ⟨h.pooled,h.used,h.locked⟩

theorem clean_callerSteps (hi : Inv s) (h : Clean s) (hstep : CallerSteps s t s') : Clean s' := by
  have hunlock : ∀ {c : ℕ} {k : Conn} {pc : Pc}, (s.pcs t).conn = some c → (∀ d, (s.pcs t).locks = some d → d = c) →
      pc.uses = none → Clean ((s.setConn c k.unlock).setPc t pc) := by
    intro c k pc hown hlocks huses
    exact h.step_conn hi t c k.unlock pc hown hlocks (fun d hd => by cases huses.symm.trans hd) nofun
  have hlocked : ∀ {c : ℕ}, (s.pcs t).locks = some c → ∀ d, (s.pcs t).locks = some d → d = c := by
    intro c hc d hd
    exact some.inj (hd.symm.trans hc)
  -- the caller keeps the lock and the connection its flag
  have hrequest : ∀ {c : ℕ} {k : Conn} {pc : Pc}, (s.pcs t).locks = some c → pc.locks = some c →
      k.poisoned = (s.conns c).poisoned → k.reqLock = (s.conns c).reqLock → Clean ((s.setConn c k).setPc t pc) := by
    intro c k pc hpc hpc' hpoisoned hlock
    refine h.step_conn hi t c k pc (conn_of_locks hpc) (hlocked hpc) ?_ ?_
    · intro d hd
      exact ⟨some.inj (hd.symm.trans (uses_of_locks hpc')),hpoisoned.trans (h.used t c (uses_of_locks hpc))⟩
    · intro u hu
      have hold := h.locked u c (hlock ▸ hu)
      exact ⟨hi.conns.held_unique u t c (conn_of_locks hold) (conn_of_locks hpc),hpc'⟩
  cases hstep with
  | start hpc =>
    have hout : (s.pcs t).locks = none := by
      rcases hpc with hpc | ⟨q,o,hpc⟩ <;> simp [hpc]
    exact (h.step_pc t _ hout (by simp)).withRest ..
  | acquired hpc _ | undialed hpc _ => exact (h.step_pc t _ (by simp [hpc]) (by simp)).withRest ..
  | dialed hpc => exact (h.step_pc t _ (by simp [hpc]) (by simp [hi.fresh s.nextConn le_rfl])).withRest ..
  | unserved hpc _ | empty hpc _ | discard hpc _ | redial hpc | refuse hpc =>
    exact h.step_pc t _ (by simp [hpc]) (by simp)
  | @popped c r pool hpc hpool =>
    have hclean := h.step_pc t (.popped c r) (by simp [hpc]) (by simp)
    exact ⟨fun d hd => h.pooled d (hpool ▸ List.mem_cons_of_mem _ hd),hclean.used,hclean.locked⟩
  | handOut hpc hu =>
    refine h.step_pc t _ (by simp [hpc]) ?_
    simp only [Conn.unusable,Bool.or_eq_false_iff] at hu
    simp [hu]
  | @enter c r hpc =>
    have hclean := h.used t c (by simp [hpc])
    exact h.step_pc t _ (by simp [hpc]) (by simp [hclean])
  | @locked c r hpc hlock =>
    have hclean := h.used t c (by simp [hpc])
    exact h.step_conn hi t c _ _ (by simp [hpc]) (by simp [hpc]) (by simp [hclean]) (by simp)
  | sent hpc | lockedRx hpc => exact hrequest (by simp [hpc]) rfl rfl rfl
  | unsent hpc | received hpc _ | ended hpc _ => exact hunlock (by simp [hpc]) (by simp [hpc]) rfl
  | timeout hpc hreq => exact hunlock (conn_of_locks hpc) (hlocked hpc) rfl
  | abandon hpc hreq =>
    rcases hpc with hpc | hpc
    · exact (hunlock (by simp [hpc]) (by simp [hpc]) rfl).withRest ..
    · exact (hunlock (conn_of_locks hpc) (hlocked hpc) rfl).withRest ..
  | @release c r o pool hpc hpool =>
    have hclean := h.step_pc t (.done r o) (by simp [hpc]) (by simp)
    refine ⟨?_,hclean.used,hclean.locked⟩
    rcases hpool with rfl | ⟨rfl,hu⟩
    · exact h.pooled
    · simp only [Conn.unusable,Bool.or_eq_false_iff] at hu
      exact List.forall_mem_cons.mpr ⟨hu.2,h.pooled⟩

end

theorem connStep_frame (hs : connStep s c a = some s') : s'.pcs = s.pcs ∧ s'.pool = s.pool ∧ s'.permits = s.permits ∧
    ∀ d, (s'.conns d).poisoned = (s.conns d).poisoned ∧ (s'.conns d).reqLock = (s.conns d).reqLock := by
  obtain ⟨-,k,answered,rfl,-,-,-,hpoisoned,hlock⟩ := connStep_moves hs
  refine ⟨rfl,rfl,rfl,fun d => ?_⟩
  by_cases hd : d = c
  · subst hd
    simp [setConn,hpoisoned,hlock]
  · simp [setConn,hd]

theorem clean_connStep (h : Clean s) (hs : connStep s c a = some s') : Clean s' := by
  obtain ⟨hpcs,hpool,-,hconns⟩ := connStep_frame hs
  refine ⟨?_,?_,?_⟩
  · intro d hd
    exact (hconns d).1.trans (h.pooled d (hpool ▸ hd))
  · intro u d hu
    exact (hconns d).1.trans (h.used u d (hpcs ▸ hu))
  · intro u d hu
    rw [hpcs]
    exact h.locked u d ((hconns d).2 ▸ hu)

/-- Permits and their holders make up the capacity, and so do at most the connections. -/
def Counted (n : ℕ) (s : Client) : Prop :=
  ∃ holding occupied, Tally (fun t => (s.base.pcs t).holds ∨ s.leaving t = true) holding ∧
    Tally (fun t => (s.base.pcs t).occupies) occupied ∧ s.base.permits+holding = n ∧ s.base.pool.length+occupied ≤ n

section

variable {s : Client}

theorem holds_of_occupies (h : pc.occupies) : pc.holds := by
  cases pc <;> first | exact h.elim | trivial

theorem counted_effect (h : Counted n s) (hleft : s.leaving t = false)
    (hother : ∀ u, u ≠ t → base.pcs u = s.base.pcs u) (heff : Effect s.base t base) : Counted n { s with base := base } := by
  obtain ⟨holding,occupied,hholding,hoccupied,hpermits,hpool⟩ := h
  have hholds : ∀ u, u ≠ t → ((base.pcs u).holds ∨ s.leaving u ↔ (s.base.pcs u).holds ∨ s.leaving u) := by
    intro u hu
    rw [hother u hu]
  have hoccupies : ∀ u, u ≠ t → ((base.pcs u).occupies ↔ (s.base.pcs u).occupies) := by
    intro u hu
    rw [hother u hu]
  have hout : ∀ pc : Pc, ¬pc.holds → ¬(pc.holds ∨ s.leaving t) := by
    rintro pc hpc (hp | hp)
    · exact hpc hp
    · cases hleft.symm.trans hp
  cases heff with
  | keep hh ho hp hq =>
    refine ⟨holding,occupied,hholding.stay hholds (or_congr_left hh),hoccupied.stay hoccupies ho,?_,?_⟩
    · rw [← hpermits,hq]
    · rw [hp]
      exact hpool
  | acquire hb ha hb' ha' hp hq =>
    refine ⟨holding+1,occupied,hholding.join hholds (hout _ hb) (.inl ha),
      hoccupied.stay hoccupies (iff_of_false ha' hb'),?_,?_⟩
    · dsimp only
      omega
    · rw [hp]
      exact hpool
  | take hb ha hb' ha' hp hq =>
    have hlt : occupied < holding := hoccupied.lt hholding (fun u hu => .inl (holds_of_occupies hu)) hb' (.inl hb)
    refine ⟨holding,occupied+1,hholding.stay hholds (or_congr_left (iff_of_true ha hb)),
      hoccupied.join hoccupies hb' ha',?_,?_⟩
    · rw [← hpermits,hq]
    rcases hp with ⟨-,hp⟩ | ⟨c,hp⟩
    · rw [hp,List.length_nil]
      omega
    · rw [hp,List.length_cons] at hpool
      dsimp only
      omega
  | retry hb ha hb' ha' hp hq =>
    obtain ⟨k,rfl,hk⟩ := hoccupied.leave hoccupies hb' ha'
    refine ⟨holding,k,hholding.stay hholds (or_congr_left (iff_of_true ha hb)),hk,?_,?_⟩
    · rw [← hpermits,hq]
    · rw [hp]
      omega
  | finish hb ha hb' ha' hp hq =>
    obtain ⟨k,rfl,hk⟩ := hoccupied.leave hoccupies hb' ha'
    obtain ⟨m,rfl,hm⟩ := hholding.leave hholds (.inl hb) (hout _ ha)
    refine ⟨m,k,hm,hk,?_,?_⟩
    · dsimp only
      omega
    rcases hp with hp | ⟨c,hp⟩
    · rw [hp]
      omega
    · rw [hp,List.length_cons]
      omega

end

structure Capacity (n : ℕ) (s : Client) : Prop where
  inv : Inv s.base
  clean : Clean s.base
  counted : Counted n s
  left : ∀ t, s.leaving t = true → ¬(s.base.pcs t).holds

section

variable {maxConns : ℕ} {s s' : Client} {as : List ClientAct}

theorem Inv.withPermits {s : State} (h : Inv s) (permits : ℕ) : Inv { s with permits := permits } :=
  ⟨h.conns,h.ids,h.pool_quiet,h.pc_ok,h.fresh,h.conn_ok⟩

theorem Capacity.caller (h : Capacity n s) (hleft : s.leaving t = false)
    (hstep : CallerSteps s.base t base) : Capacity n { s with base := base } := by
  have hother := callerSteps_frame hstep
  refine ⟨callerSteps_inv h.inv hstep,clean_callerSteps h.inv h.clean hstep,counted_effect h.counted hleft hother (callerSteps_effect hstep),?_⟩
  intro u hu
  have hne : u ≠ t := by
    rintro rfl
    cases hleft.symm.trans hu
  rw [hother u hne]
  exact h.left u hu

/-- The connection goes back to the pool while the permit is still held. -/
theorem Capacity.handBack (h : Capacity n s) (hs : callerStep s.base t .release = some base) :
    Capacity n { base := { base with permits := s.base.permits }, leaving := update s.leaving t true } := by
  have hstep := callerStep_steps hs
  have hother := callerSteps_frame hstep
  obtain ⟨c,r,o,hpc⟩ : ∃ c r o, s.base.pcs t = .release c r o := by
    cases hpc : s.base.pcs t <;> simp only [callerStep.eq_def,hpc,reduceCtorEq] at hs
    exact ⟨_,_,_,rfl⟩
  have hdone : ¬(base.pcs t).holds := by
    simp only [callerStep.eq_def,hpc,some.injEq] at hs
    subst hs
    simp
  refine ⟨(callerSteps_inv h.inv hstep).withPermits _,(clean_callerSteps h.inv h.clean hstep).withRest ..,?_,?_⟩
  · obtain ⟨holding,occupied,hholding,hoccupied,hpermits,hpool⟩ := h.counted
    have hroom : base.pool.length ≤ s.base.pool.length+1 := by
      simp only [callerStep.eq_def,hpc,some.injEq] at hs
      subst hs
      dsimp only
      split
      · omega
      · split
        · exact le_rfl
        · omega
    obtain ⟨k,rfl,hk⟩ : ∃ k, occupied = k+1 ∧ Tally (fun u => (base.pcs u).occupies) k := by
      refine hoccupied.leave (t:=t) ?_ (by simp [hpc]) fun ho => hdone (holds_of_occupies ho)
      intro u hu
      rw [hother u hu]
    refine ⟨holding,k,hholding.stay (t:=t) ?_ ?_,hk,?_,?_⟩
    · intro u hu
      dsimp only
      rw [hother u hu,update_of_ne hu]
    · exact iff_of_true (.inr (update_self ..)) (.inl (by simp [hpc]))
    · exact hpermits
    · dsimp only
      omega
  · intro u hu
    by_cases hut : u = t
    · subst hut
      exact hdone
    · dsimp only
      rw [hother u hut]
      exact h.left u ((update_of_ne hut ..).symm.trans hu)

theorem Capacity.returnPermit (h : Capacity n s) (hleft : s.leaving t) :
    Capacity n { base := { s.base with permits := s.base.permits+1 }, leaving := update s.leaving t false } := by
  refine ⟨h.inv.withPermits _,h.clean.withRest ..,?_,?_⟩
  · obtain ⟨holding,occupied,hholding,hoccupied,hpermits,hpool⟩ := h.counted
    obtain ⟨k,rfl,hk⟩ : ∃ k, holding = k+1 ∧ Tally (fun u => (s.base.pcs u).holds ∨ update s.leaving t false u) k := by
      refine hholding.leave (t:=t) ?_ (.inr hleft) ?_
      · intro u hu
        rw [update_of_ne hu]
      rintro (hp | hp)
      · exact h.left t hleft hp
      · rw [update_self] at hp
        cases hp
    refine ⟨k,occupied,hk,hoccupied,?_,hpool⟩
    dsimp only
    omega
  · intro u hu
    by_cases hut : u = t
    · subst hut
      exact h.left u hleft
    · exact h.left u ((update_of_ne hut ..).symm.trans hu)

theorem capacity_step (n : ℕ) (s : Client) (a : ClientAct) (s' : Client) (h : Capacity n s) (hs : clientStep s a = some s') :
    Capacity n s' := by
  unfold clientStep at hs
  split at hs
  · cases hs
  · split_ifs at hs with hleft
    obtain ⟨base,hbase,rfl⟩ := map_eq_some_iff.mp hs
    exact h.caller (by simpa using hleft) (callerStep_steps hbase)
  · obtain ⟨base,hbase,rfl⟩ := map_eq_some_iff.mp hs
    obtain ⟨hpcs,hpool,hpermits,-⟩ := connStep_frame hbase
    refine ⟨connStep_inv h.inv hbase,clean_connStep h.clean hbase,?_,?_⟩
    · have hcounted := h.counted
      unfold Counted at hcounted ⊢
      rwa [hpcs,hpool,hpermits]
    · dsimp only
      rw [hpcs]
      exact h.left
  · split at hs
    · rename_i t e _ c r hpc
      cases hs
      have hleft : s.leaving t = false := by
        by_contra hleft
        exact h.left t (by simpa using hleft) (by simp [hpc])
      exact h.caller hleft (.refuse hpc)
    · cases hs
  · obtain ⟨base,hbase,rfl⟩ := map_eq_some_iff.mp hs
    exact h.handBack hbase
  · split_ifs at hs with hleft
    cases hs
    exact h.returnPermit hleft

theorem capacity_run (h : exec clientStep { base := init maxConns } as = some s) : Capacity maxConns s := by
  refine exec_invariant (capacity_step maxConns) ⟨init_inv maxConns,?_,?_,?_⟩ h
  · exact ⟨by simp [init],by simp [init],by simp [init]⟩
  · exact ⟨0,0,.none (by simp [init]),.none (by simp [init]),rfl,by simp [init]⟩
  · simp

end

/-- A step of the caller's own, other than that its future is dropped. -/
def ClientAct.own (t : ℕ) : ClientAct → Prop
  | .pool (.caller _ .drop) => False
  | .pool (.caller u _) | .handBack u | .returnPermit u => u = t
  | _ => False

/-- By its own steps the caller comes to its end and gives its permit back. -/
def Finishes (t : ℕ) (s : Client) : Prop :=
  ∃ as s', (∀ a ∈ as, ClientAct.own t a) ∧ exec clientStep s as = some s' ∧ s'.base.permits = s.base.permits+1 ∧
    ¬(s'.base.pcs t).holds ∧ s'.leaving t = false

section

variable {s s' : Client} {r : Request} {o : Outcome} {a : CallerAct}

theorem Finishes.step {a : ClientAct} (h : Finishes t s') (ha : a.own t) (hs : clientStep s a = some s')
    (hpermits : s'.base.permits = s.base.permits) : Finishes t s := by
  obtain ⟨as,u,hown,hexec,hu,hrest⟩ := h
  refine ⟨a::as,u,?_,exec_cons_iff.mpr ⟨s',hs,hexec⟩,by rw [hu,hpermits],hrest⟩
  intro b hb
  rcases List.mem_cons.mp hb with rfl | hb
  · exact ha
  · exact hown b hb

theorem finishes_leaving (hp : ¬(s.base.pcs t).holds) (hleft : s.leaving t) : Finishes t s := by
  refine ⟨[.returnPermit t],_,by simp [ClientAct.own],exec_cons_iff.mpr ⟨_,if_pos hleft,rfl⟩,rfl,hp,?_⟩
  exact update_self ..

theorem finishes_release (hpc : s.base.pcs t = .release c r o) : Finishes t s := by
  obtain ⟨base,hbase⟩ : ∃ base, callerStep s.base t .release = some base := by
    simp only [callerStep.eq_def,hpc]
    exact ⟨_,rfl⟩
  have hstep : clientStep s (.handBack t) = some ⟨{ base with permits := s.base.permits },update s.leaving t true⟩ := by
    rw [clientStep,hbase,map_some]
  refine Finishes.step (a:=.handBack t) (finishes_leaving ?_ (update_self ..)) rfl hstep rfl
  simp only [callerStep.eq_def,hpc,some.injEq] at hbase
  subst hbase
  simp

theorem clientStep_caller (hleft : s.leaving t = false) (ha : a ≠ .release)
    (hs : callerStep s.base t a = some base) : clientStep s (.pool (.caller t a)) = some { s with base := base } := by
  unfold clientStep
  split
  · rename_i heq
    cases heq
    exact absurd rfl ha
  · rename_i heq
    cases heq
    rw [hleft,hs]
    rfl
  all_goals
    rename_i heq
    cases heq

/-- A step of the caller on its way to the end. -/
theorem Finishes.caller (h : Capacity n s) (hleft : s.leaving t = false)
    (hs : callerStep s.base t a = some base) (hpermits : base.permits = s.base.permits) (ha : a ≠ .release ∧ a ≠ .drop)
    (hnext : Capacity n { s with base := base } → Finishes t { s with base := base }) : Finishes t s := by
  have hstep := clientStep_caller hleft ha.1 hs
  refine Finishes.step (a:=.pool (.caller t a)) (hnext (capacity_step _ _ _ _ h hstep)) ?_ hstep hpermits
  cases a <;> first | exact absurd rfl ha.2 | rfl

theorem Capacity.unlocked (h : Capacity n s) (hown : (s.base.pcs t).conn = some c) (hlocks : (s.base.pcs t).locks = none) :
    (s.base.conns c).reqLock = none := by
  refine eq_none_iff_forall_ne_some.mpr ?_
  intro u hu
  have hlock := h.clean.locked u c hu
  obtain rfl := h.inv.conns.held_unique u t c (conn_of_locks hlock) hown
  cases hlocks.symm.trans hlock

/-- The caller comes to its end from wherever it looks into this pool. -/
def Searches (n t : ℕ) (r : Request) (pool : List ℕ) : Prop :=
  ∀ s : Client, Capacity n s → s.leaving t = false → s.base.pool = pool → s.base.pcs t = .pop r → Finishes t s

variable (h : Capacity n s) (hleft : s.leaving t = false)

include h hleft

/-- A caller that makes a request can time out. -/
theorem finishes_locks (hpc : (s.base.pcs t).locks = some c) : Finishes t s := by
  obtain ⟨r,hstep⟩ : ∃ r, callerStep s.base t .timeout =
      some (s.base.leave t c r { s.base.conns c with poisoned := true, closed := true } (.error .timeout)) := by
    cases hp : s.base.pcs t <;> rw [hp] at hpc <;> cases hpc
    all_goals
      simp only [callerStep.eq_def,hp]
      exact ⟨_,rfl⟩
  exact .caller h hleft hstep rfl (by simp) fun _ => finishes_release (setPc_self ..)

theorem finishes_lock (hpc : s.base.pcs t = .lock c r) : Finishes t s := by
  have hlock := h.unlocked (t:=t) (c:=c) (by simp [hpc]) (by simp [hpc])
  have hstep : callerStep s.base t .locked =
      some ((s.base.setConn c { s.base.conns c with reqLock := some t }).setPc t (.send c r)) := by
    simp only [callerStep.eq_def,hpc,hlock,if_true]
  exact .caller h hleft hstep rfl (by simp) fun h => finishes_locks h hleft (congrArg Pc.locks (setPc_self ..))

theorem finishes_enter (hpc : s.base.pcs t = .enter c r) : Finishes t s := by
  obtain ⟨base,hstep,hbase⟩ : ∃ base, callerStep s.base t .enter = some base ∧
      ((∃ o, base = s.base.setPc t (.release c r o)) ∨ base = s.base.setPc t (.lock c r)) := by
    simp only [callerStep.eq_def,hpc]
    split
    · exact ⟨_,rfl,.inl ⟨_,rfl⟩⟩
    · split
      · exact ⟨_,rfl,.inl ⟨_,rfl⟩⟩
      · exact ⟨_,rfl,.inr rfl⟩
  rcases hbase with ⟨o,rfl⟩ | rfl
  · exact .caller h hleft hstep rfl (by simp) fun _ => finishes_release (setPc_self ..)
  · exact .caller h hleft hstep rfl (by simp) fun h => finishes_lock h hleft (setPc_self ..)

omit h in
theorem finishes_undialed (hpc : s.base.pcs t = .dial false r) : Finishes t s := by
  have hstep : callerStep s.base t .dialFailed =
      some { s.base.setPc t (.done r (.error .io)) with permits := s.base.permits+1 } := by
    simp only [callerStep.eq_def,hpc]
  refine ⟨[.pool (.caller t .dialFailed)],_,?_,exec_cons_iff.mpr ⟨_,clientStep_caller hleft (by simp) hstep,rfl⟩,rfl,?_,hleft⟩
  · simp [ClientAct.own]
  · simp

theorem finishes_redial (hsearch : Searches n t r s.base.pool) (hpc : s.base.pcs t = .dial true r) : Finishes t s := by
  have hstep : callerStep s.base t .dialFailed = some (s.base.setPc t (.pop r)) := by
    simp only [callerStep.eq_def,hpc]
  exact .caller h hleft hstep rfl (by simp) fun h => hsearch _ h hleft rfl (setPc_self ..)

theorem finishes_popped (hsearch : Searches n t r s.base.pool) (hpc : s.base.pcs t = .popped c r) : Finishes t s := by
  by_cases hu : (s.base.conns c).unusable
  · have hstep : callerStep s.base t .check = some (s.base.setPc t (.dial true r)) := by
      simp only [callerStep.eq_def,hpc,hu,if_true]
    exact .caller h hleft hstep rfl (by simp) fun h => finishes_redial h hleft hsearch (setPc_self ..)
  · have hstep : callerStep s.base t .check = some (s.base.setPc t (.enter c r)) := by
      simp only [callerStep.eq_def,hpc,hu,Bool.false_eq_true,if_false]
    exact .caller h hleft hstep rfl (by simp) fun h => finishes_enter h hleft (setPc_self ..)

omit h hleft in
/-- The pool gets shorter with every dead connection that the caller finds in it. -/
theorem searches (n t : ℕ) (r : Request) (pool : List ℕ) : Searches n t r pool := by
  induction pool with
  | nil =>
    intro s h hleft hpool hpc
    have hstep : callerStep s.base t .pop = some (s.base.setPc t (.dial false r)) := by
      simp only [callerStep.eq_def,hpc,hpool]
    exact .caller h hleft hstep rfl (by simp) fun _ => finishes_undialed hleft (setPc_self ..)
  | cons c pool ih =>
    intro s h hleft hpool hpc
    have hstep : callerStep s.base t .pop = some { s.base.setPc t (.popped c r) with pool := pool } := by
      simp only [callerStep.eq_def,hpc,hpool]
    exact .caller h hleft hstep rfl (by simp) fun h => finishes_popped h hleft ih (setPc_self ..)

omit h hleft

/-- Whoever has a permit can give it back, whatever the others do. -/
theorem Capacity.finishes (h : Capacity n s) (ht : (s.base.pcs t).holds ∨ s.leaving t) : Finishes t s := by
  by_cases hleft : s.leaving t
  · exact finishes_leaving (h.left t hleft) hleft
  have hin := ht.resolve_right hleft
  have hleft : s.leaving t = false := by simpa using hleft
  match hpc : s.base.pcs t with
  | .idle => exact absurd hin (by simp [hpc])
  | .permit r => exact absurd hin (by simp [hpc])
  | .done r o => exact absurd hin (by simp [hpc])
  | .pop r => exact searches n t r _ s h hleft rfl hpc
  | .popped c r => exact finishes_popped h hleft (searches n t r _) hpc
  | .dial true r => exact finishes_redial h hleft (searches n t r _) hpc
  | .dial false r => exact finishes_undialed hleft hpc
  | .enter c r => exact finishes_enter h hleft hpc
  | .lock c r => exact finishes_lock h hleft hpc
  | .send c r => exact finishes_locks h hleft (c:=c) (by simp [hpc])
  | .lockRx c r => exact finishes_locks h hleft (c:=c) (by simp [hpc])
  | .recv c r => exact finishes_locks h hleft (c:=c) (by simp [hpc])
  | .release c r o => exact finishes_release hpc

end

/-- In every run: connections in the pool, in use and being dialled are at most `max_conns`; no
poisoned one is in the pool or handed out; every permit is free or has a holder, and each
holder can give it back. -/
theorem pool_capacity {maxConns : ℕ} {as : List ClientAct} {s : Client}
    (h : exec clientStep { base := init maxConns } as = some s) :
    (∃ holding occupied, Tally (fun t => (s.base.pcs t).holds ∨ s.leaving t = true) holding ∧
      Tally (fun t => (s.base.pcs t).occupies) occupied ∧ s.base.permits+holding = maxConns ∧
      s.base.pool.length+occupied ≤ maxConns) ∧
    (∀ c ∈ s.base.pool, (s.base.conns c).poisoned = false) ∧
    (∀ t c, (s.base.pcs t).uses = some c → (s.base.conns c).poisoned = false) ∧
    ∀ t, (s.base.pcs t).holds ∨ s.leaving t = true → Finishes t s := by
  have hcapacity := capacity_run h
  exact ⟨hcapacity.counted,hcapacity.clean.pooled,hcapacity.clean.used,fun t => hcapacity.finishes⟩

/-- A request times out and its connection is not pooled again; the permit is still out. -/
def timedOut : List ClientAct :=
  [.pool (.caller 0 (.start .stat [] false)),.pool (.caller 0 .acquired),.pool (.caller 0 .pop),
   .pool (.caller 0 .check),.pool (.caller 0 .enter),.pool (.caller 0 .locked),.pool (.caller 0 .sent),
   .pool (.caller 0 .timeout),.handBack 0]

theorem pool_capacity_timedOut : ∃ s, exec clientStep { base := init 1 } timedOut = some s ∧
    (s.base.conns 0).poisoned = true ∧ s.base.pool = [] ∧ s.base.permits = 0 ∧ Finishes 0 s := by
  have hs : exec clientStep { base := init 1 } timedOut = some _ := rfl
  exact ⟨_,hs,rfl,rfl,rfl,(pool_capacity hs).2.2.2 0 (.inr rfl)⟩

end AdbShare.ProxyPool
