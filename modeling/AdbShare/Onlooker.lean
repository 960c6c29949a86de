import AdbShare.Interleave

/-! History variables. An onlooker keeps notes on a run without taking part in it: one
part about each thread, and stamps of what was changed when, by which request, and
whether the request has replied. Against these notes a cached value is fresh or not. -/
namespace AdbShare

universe u

namespace Service

open Transition Function

variable {Act : Type → Type u} {σ χ Q ρ ν G κ : Type} {S : Service Act σ χ Q ρ}

/-- What is noted down of a request's start, of an action, with the state it finds and the
answer it gets, and of a reply. -/
structure Onlooker (Act : Type → Type u) (σ χ Q ρ ν : Type) where
  start : ℕ → Q → ν → ν
  act : ℕ → Q → (β : Type) → Act β → χ → σ → β → ν → ν
  reply : ℕ → Q → ρ → ν → ν

structure Watched (Act : Type → Type u) (σ Q ρ ν : Type) where
  config : Config Act σ Q ρ
  notes : ν

def Onlooker.see (S : Service Act σ χ Q ρ) (O : Onlooker Act σ χ Q ρ ν) (c : Config Act σ Q ρ) (n : ν) :
    Event χ Q → ν
  | .start t q => O.start t q n
  | .act t x =>
    match c.threads t with
    | some (q,.act a _) =>
      match S.run a x c.shared with
      | some (b,_) => O.act t q _ a x c.shared b n
      | none => n
    | _ => n
  | .reply t =>
    match c.threads t with
    | some (q,.ret r) => O.reply t q r n
    | _ => n

/-- A step of the service, and a note about it. -/
def watch (S : Service Act σ χ Q ρ) (O : Onlooker Act σ χ Q ρ ν) (w : Watched Act σ Q ρ ν)
    (e : Event χ Q) : Option (Watched Act σ Q ρ ν) :=
  (S.step w.config e).map fun c => ⟨c,O.see S w.config w.notes e⟩

inductive Watches (S : Service Act σ χ Q ρ) (O : Onlooker Act σ χ Q ρ ν) (w : Watched Act σ Q ρ ν) :
    Event χ Q → Watched Act σ Q ρ ν → Prop
  | start {t : ℕ} {q : Q} {s : σ} (hfree : w.config.threads t = none)
      (hs : S.arrive q w.config.shared = some s) :
      Watches S O w (.start t q)
        ⟨⟨s,update w.config.threads t (some (q,S.handler q))⟩,O.start t q w.notes⟩
  | act {t : ℕ} {x : χ} {q : Q} {β : Type} {a : Act β} {k : β → Prog Act ρ} {b : β} {s : σ}
      (ht : w.config.threads t = some (q,.act a k)) (hs : S.run a x w.config.shared = some (b,s)) :
      Watches S O w (.act t x)
        ⟨⟨s,update w.config.threads t (some (q,k b))⟩,
          O.act t q β a x w.config.shared b w.notes⟩
  | reply {t : ℕ} {q : Q} {r : ρ} (ht : w.config.threads t = some (q,.ret r)) :
      Watches S O w (.reply t)
        ⟨⟨S.leave q r w.config.shared,update w.config.threads t none⟩,O.reply t q r w.notes⟩

theorem watch_watches {O : Onlooker Act σ χ Q ρ ν}
    {w w' : Watched Act σ Q ρ ν} {e : Event χ Q} (h : watch S O w e = some w') : Watches S O w e w' := by
  obtain ⟨c,hc,rfl⟩ := Option.map_eq_some_iff.mp h
  cases step_steps hc with
  | start hfree hs => exact .start hfree hs
  | act ht hs =>
    have hact := Watches.act (O:=O) ht hs
    simpa only [Onlooker.see,ht,hs] using hact
  | reply ht =>
    have hreply := Watches.reply (S:=S) (O:=O) ht
    simpa only [Onlooker.see,ht] using hreply

/-- A program whose actions can always be performed comes to its end on its own, whatever its
actions leave open. -/
theorem watch_runs_out {O : Onlooker Act σ χ Q ρ ν} {Inv : Watched Act σ Q ρ ν → Prop}
    {t : ℕ} {q : Q} {p : Prog Act ρ} (hp : p.Only fun _ a => ∀ x s, (S.run a x s).isSome)
    (hinv : ∀ w x w', Inv w → watch S O w (.act t x) = some w' → Inv w') (xs : ℕ → χ) {w : Watched Act σ Q ρ ν}
    (ht : w.config.threads t = some (q,p)) (hw : Inv w) :
    ∃ n w' r, exec (watch S O) w ((List.range n).map fun i => .act t (xs i)) = some w' ∧
      w'.config.threads t = some (q,.ret r) ∧ Inv w' := by
  induction p generalizing w xs with
  | ret r => exact ⟨0,w,r,rfl,ht,hw⟩
  | act a k ih =>
    obtain ⟨⟨b,s⟩,hb⟩ := Option.isSome_iff_exists.mp (hp.1 (xs 0) w.config.shared)
    obtain ⟨w₁,hw₁⟩ : ∃ w₁, watch S O w (.act t (xs 0)) = some w₁ := by
      simp [watch,step,ht,hb]
    have ht₁ : w₁.config.threads t = some (q,k b) := by
      simp only [watch,step,ht,hb,Option.map_some,Option.some.injEq] at hw₁
      subst hw₁
      exact update_self _ _ _
    obtain ⟨n,w',r,hexec,hend,hw'⟩ := ih b (hp.2 b) (fun i => xs (i+1)) ht₁ (hinv w (xs 0) w₁ hw hw₁)
    refine ⟨n+1,w',r,?_,hend,hw'⟩
    rw [List.range_succ_eq_map,List.map_cons,List.map_map]
    exact exec_cons_iff.mpr ⟨w₁,hw₁,hexec⟩

section

variable {loc : ν → ℕ → G} {pre : G → (β : Type) → Act β → Prop}
  {next : Q → G → (β : Type) → Act β → β → G → Prop} {post : G → ρ → Prop} {i : Q → G} {idle : G}

/-- What is noted about each thread suits the rest of its program. -/
structure Abides (loc : ν → ℕ → G) (pre : G → (β : Type) → Act β → Prop)
    (next : Q → G → (β : Type) → Act β → β → G → Prop) (post : G → ρ → Prop) (idle : G)
    (w : Watched Act σ Q ρ ν) : Prop where
  busy : ∀ t q p, w.config.threads t = some (q,p) → p.Obeys pre (next q) post (loc w.notes t)
  free : ∀ t, w.config.threads t = none → loc w.notes t = idle

/-- A step after which the notes about its thread are allowed ones and the notes about the
others are as before. -/
theorem Abides.watches {S : Service Act σ χ Q ρ} {O : Onlooker Act σ χ Q ρ ν}
    {w w' : Watched Act σ Q ρ ν} {e : Event χ Q} (hw : Abides loc pre next post idle w)
    (hhandler : ∀ q s s', S.arrive q s = some s' → (S.handler q).Obeys pre (next q) post (i q))
    (hstart : ∀ t q n, loc n t = idle → loc (O.start t q n) = update (loc n) t (i q))
    (hothers : ∀ t q (β : Type) (a : Act β) x s b n t', t' ≠ t → loc (O.act t q β a x s b n) t' = loc n t')
    (hreply : ∀ t q r n, loc (O.reply t q r n) = update (loc n) t idle)
    (hnext : ∀ t x q (β : Type) (a : Act β) k b s, e = .act t x →
      w.config.threads t = some (q,.act a k) → S.run a x w.config.shared = some (b,s) →
        next q (loc w.notes t) β a b (loc (O.act t q β a x w.config.shared b w.notes) t))
    (h : Watches S O w e w') : Abides loc pre next post idle w' := by
  cases h with
  | @start t q s hfree hs =>
    constructor
    · apply forall_threads_update
      · intro t' q' p' htt ht'
        show p'.Obeys pre (next q') post (loc (O.start t q w.notes) t')
        rw [hstart t q w.notes (hw.free t hfree),update_of_ne htt]
        exact hw.busy t' q' p' ht'
      · intro q' p' hth
        cases hth
        show (S.handler q).Obeys pre (next q) post (loc (O.start t q w.notes) t)
        rw [hstart t q w.notes (hw.free t hfree),update_self]
        exact hhandler q _ _ hs
    · intro t' ht'
      by_cases htt : t' = t
      · subst htt
        simp at ht'
      · show loc (O.start t q w.notes) t' = idle
        rw [hstart t q w.notes (hw.free t hfree),update_of_ne htt]
        exact hw.free t' (by simpa [htt] using ht')
  | @act t x q β a k b s ht hs =>
    constructor
    · apply forall_threads_update
      · intro t' q' p' htt ht'
        show p'.Obeys pre (next q') post (loc (O.act t q β a x _ b w.notes) t')
        rw [hothers t q β a x _ b w.notes t' htt]
        exact hw.busy t' q' p' ht'
      · intro q' p' hth
        cases hth
        exact (hw.busy t q _ ht).2 b _ (hnext t x q β a k b s rfl ht hs)
    · intro t' ht'
      by_cases htt : t' = t
      · subst htt
        simp at ht'
      · show loc (O.act t q β a x _ b w.notes) t' = idle
        rw [hothers t q β a x _ b w.notes t' htt]
        exact hw.free t' (by simpa [htt] using ht')
  | @reply t q r ht =>
    constructor
    · refine forall_threads_update ?_ nofun
      intro t' q' p' htt ht'
      show p'.Obeys pre (next q') post (loc (O.reply t q r w.notes) t')
      rw [hreply,update_of_ne htt]
      exact hw.busy t' q' p' ht'
    · intro t' ht'
      show loc (O.reply t q r w.notes) t' = idle
      rw [hreply]
      by_cases htt : t' = t
      · rw [htt,update_self]
      · rw [update_of_ne htt]
        exact hw.free t' (by simpa [htt] using ht')

end

end Service

/-- Notes about changes: stamps start at 1, and 0 stands for never. -/
structure Notes (κ : Type) where
  /-- The last change by a request that has replied. -/
  settled : κ → ℕ
  /-- The last change by the request on the thread. -/
  made : ℕ → κ → ℕ
  /-- What the request on the thread has changed and not yet seen to. -/
  owes : ℕ → Set κ

namespace Notes

def blank : Notes κ := ⟨fun _ => 0,fun _ _ => 0,fun _ => ∅⟩

/-- The thread sees to some things and changes some. -/
def act (n : Notes κ) (t : ℕ) (changed : κ → Bool) (paid : Set κ) (now : ℕ) : Notes κ :=
  { n with
    made := Function.update n.made t fun k => if changed k then now else n.made t k
    owes := Function.update n.owes t ((n.owes t \ paid) ∪ {k | changed k = true}) }

/-- The request on the thread replies; its changes of what is due count from now on. -/
def reply (n : Notes κ) (t : ℕ) (due : κ → Bool) : Notes κ where
  settled := fun k => if due k then max (n.settled k) (n.made t k) else n.settled k
  made := Function.update n.made t fun _ => 0
  owes := Function.update n.owes t ∅

/-- A value fetched at the stamp has missed no change but those that somebody still has to
see to. -/
def Fresh (n : Notes κ) (k : κ) (fetched : ℕ) : Prop :=
  n.settled k ≤ fetched ∧ ∀ t, k ∉ n.owes t → n.made t k ≤ fetched

/-- All changes are up to a stamp. -/
def UpTo (n : Notes κ) (now : ℕ) : Prop := ∀ k, n.settled k ≤ now ∧ ∀ t, n.made t k ≤ now

section

variable {n : Notes κ} {k : κ} {f t : ℕ} {changed : κ → Bool} {paid : Set κ} {now : ℕ}

/-- A change does not spoil anything, since the changer still has to see to it. -/
theorem Fresh.act (h : n.Fresh k f) (hk : k ∉ paid) : (n.act t changed paid now).Fresh k f := by
  refine ⟨h.1,?_⟩
  intro t' ht'
  by_cases htt : t' = t
  · subst htt
    simp only [Notes.act,Function.update_self,Set.mem_union,Set.mem_sdiff,Set.mem_ofPred_eq,not_or,hk,
      not_false_eq_true,and_true,Bool.not_eq_true] at ht' ⊢
    simpa [ht'.2] using h.2 t' ht'.1
  · simp only [Notes.act,Function.update_of_ne htt] at ht' ⊢
    exact h.2 t' ht'

/-- A value that has missed no change but those that other threads still have to see to is
fresh whatever this thread has seen to. -/
theorem fresh_act_of_current (hs : n.settled k ≤ f)
    (hm : ∀ t', n.made t' k ≤ f ∨ t' ≠ t ∧ k ∈ n.owes t') (hc : changed k = false) :
    (n.act t changed paid now).Fresh k f := by
  refine ⟨hs,?_⟩
  intro t' ht'
  by_cases htt : t' = t
  · subst htt
    have hm' : n.made t' k ≤ f := (hm t').resolve_right fun h => h.1 rfl
    simpa [Notes.act,hc] using hm'
  · simp only [Notes.act,Function.update_of_ne htt] at ht' ⊢
    exact (hm t').resolve_right fun h => ht' h.2

/-- When the request replies, nothing that is due is left to be seen to. -/
theorem Fresh.reply (h : n.Fresh k f) {due : κ → Bool} (hdue : k ∈ n.owes t → due k = false) :
    (n.reply t due).Fresh k f := by
  constructor
  · by_cases hd : due k
    · have hk : k ∉ n.owes t := fun hk => by simp [hdue hk] at hd
      simpa [Notes.reply,hd] using ⟨h.1,h.2 t hk⟩
    · simpa [Notes.reply,hd] using h.1
  · intro t' ht'
    by_cases htt : t' = t
    · subst htt
      simp [Notes.reply]
    · simp only [Notes.reply,Function.update_of_ne htt] at ht' ⊢
      exact h.2 t' ht'

theorem UpTo.fresh (h : n.UpTo now) (hf : now ≤ f) : n.Fresh k f := ⟨(h k).1.trans hf,fun t _ => ((h k).2 t).trans hf⟩

theorem UpTo.act (h : n.UpTo now) {stamp later : ℕ} (hl : now ≤ later)
    (hc : ∀ k, changed k → stamp ≤ later) : (n.act t changed paid stamp).UpTo later := by
  intro k
  refine ⟨(h k).1.trans hl,?_⟩
  intro t'
  have hm := ((h k).2 t').trans hl
  by_cases htt : t' = t
  · subst htt
    by_cases hk : changed k
    · simpa [Notes.act,hk] using hc k hk
    · simpa [Notes.act,hk] using hm
  · simpa [Notes.act,htt] using hm

theorem UpTo.reply (h : n.UpTo now) (due : κ → Bool) : (n.reply t due).UpTo now := by
  intro k
  constructor
  · by_cases hd : due k
    · simpa [Notes.reply,hd] using ⟨(h k).1,(h k).2 t⟩
    · simpa [Notes.reply,hd] using (h k).1
  · intro t'
    by_cases htt : t' = t
    · subst htt
      simp [Notes.reply]
    · simpa [Notes.reply,htt] using (h k).2 t'

end

end Notes
end AdbShare
