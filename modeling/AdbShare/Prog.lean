import Mathlib.Tactic

/-! Programs of atomic actions, and what can be said of a program without knowing what its
actions do: which values it can return, which actions it comes to, what it keeps track of. -/
namespace AdbShare

universe u

/-- A program performs atomic actions and returns. -/
inductive Prog (Act : Type → Type u) (ρ : Type) : Type (max 1 u)
  | ret (r : ρ)
  | act {β : Type} (a : Act β) (k : β → Prog Act ρ)

namespace Prog

variable {Act : Type → Type u} {ρ τ β υ σ : Type} {G : Type} {p : Prog Act ρ} {f : ρ → Prog Act τ}
  {post : G → τ → Prop} {Act' : Type → Type v} {P P' : (β : Type) → Act β → Prop}
  {pre pre' : G → (β : Type) → Act β → Prop} {next : G → (β : Type) → Act β → β → G → Prop} {g : G}
  {ok : (β : Type) → Act β → β → Prop} {r r' : ρ} {a : Act ρ} {k : β → Prog Act ρ} {s s' : σ}
  {does : (β : Type) → Act β → σ → β → σ → Prop} {R : σ → σ → Prop} {mid post' : G → ρ → Prop} {I : G → Prop}

protected def bind : Prog Act ρ → (ρ → Prog Act τ) → Prog Act τ
  | .ret r, f => f r
  | .act a k, f => .act a fun b => (k b).bind f

instance : Monad (Prog Act) where
  pure := .ret
  bind := Prog.bind

/-- One action as a program. -/
def perform (a : Act ρ) : Prog Act ρ := .act a .ret

@[simp] theorem pure_eq (r : ρ) : (pure r : Prog Act ρ) = .ret r := rfl

@[simp] theorem ret_bind (r : ρ) (f : ρ → Prog Act τ) : (Prog.ret r >>= f) = f r := rfl

@[simp] theorem act_bind (a : Act β) (k : β → Prog Act ρ) (f : ρ → Prog Act τ) :
    (Prog.act a k >>= f) = .act a fun b => k b >>= f := rfl

@[simp] theorem perform_bind (a : Act ρ) (f : ρ → Prog Act τ) : (perform a >>= f) = .act a f := rfl

theorem bind_assoc (p : Prog Act ρ) (f : ρ → Prog Act τ) (g : τ → Prog Act υ) :
    ((p >>= f) >>= g) = (p >>= fun x => f x >>= g) := by
  induction p with
  | ret x => rfl
  | act a k ih =>
    simp only [act_bind]
    congr 1
    funext b
    exact ih b

/-- The program can return the value when its actions give answers the relation allows. -/
def Returns (ok : (β : Type) → Act β → β → Prop) : Prog Act ρ → ρ → Prop
  | .ret r, r' => r' = r
  | .act a k, r' => ∃ b, ok _ a b ∧ (k b).Returns ok r'

@[simp] theorem returns_ret_iff : (Prog.ret r : Prog Act ρ).Returns ok r' ↔ r' = r := Iff.rfl

@[simp] theorem returns_act_iff {a : Act β} : (Prog.act a k).Returns ok r ↔ ∃ b, ok β a b ∧ (k b).Returns ok r :=
  Iff.rfl

theorem returns_bind_iff {r : τ} : (p >>= f).Returns ok r ↔ ∃ x, p.Returns ok x ∧ (f x).Returns ok r := by
  induction p with
  | ret x => simp
  | act a k ih =>
    simp only [act_bind,returns_act_iff,ih]
    constructor
    · rintro ⟨b,hb,x,hx,hr⟩
      exact ⟨x,⟨b,hb,hx⟩,hr⟩
    · rintro ⟨x,⟨b,hb,hx⟩,hr⟩
      exact ⟨b,hb,x,hx,hr⟩

/-- The program runs from one state to another by itself and returns the value. -/
def Yields {σ : Type} (does : (β : Type) → Act β → σ → β → σ → Prop) : Prog Act ρ → σ → ρ → σ → Prop
  | .ret r, s, r', s' => r' = r ∧ s' = s
  | .act a k, s, r', s' => ∃ b t, does _ a s b t ∧ (k b).Yields does t r' s'

section

variable {k : ρ → Prog Act τ}

@[simp] theorem yields_ret_iff : (Prog.ret r : Prog Act ρ).Yields does s r' s' ↔ r' = r ∧ s' = s := Iff.rfl

@[simp] theorem yields_act_iff {a : Act β} {k : β → Prog Act ρ} :
    (Prog.act a k).Yields does s r s' ↔ ∃ b t, does β a s b t ∧ (k b).Yields does t r s' := Iff.rfl

theorem yields_perform_bind {r : τ} :
    (perform a >>= f).Yields does s r s' ↔ ∃ b t, does ρ a s b t ∧ (f b).Yields does t r s' := Iff.rfl

theorem yields_bind_iff {r : τ} :
    (p >>= f).Yields does s r s' ↔ ∃ x t, p.Yields does s x t ∧ (f x).Yields does t r s' := by
  induction p generalizing s with
  | ret x =>
    constructor
    · intro h
      exact ⟨x,s,⟨rfl,rfl⟩,h⟩
    · rintro ⟨x',t,⟨rfl,rfl⟩,h⟩
      exact h
  | act a k ih =>
    simp only [act_bind,yields_act_iff,ih]
    constructor
    · rintro ⟨b,t,hb,x,u,hx,hr⟩
      exact ⟨x,u,⟨b,t,hb,hx⟩,hr⟩
    · rintro ⟨x,u,⟨b,t,hb,hx⟩,hr⟩
      exact ⟨b,t,hb,x,u,hx,hr⟩

/-- Run a program by itself on actions that leave nothing open. -/
def play {σ : Type} (f : (β : Type) → Act β → σ → Option (β × σ)) : Prog Act ρ → σ → Option (ρ × σ)
  | .ret r, s => some (r,s)
  | .act a k, s => (f _ a s).bind fun bt => (k bt.1).play f bt.2

theorem play_bind {f : (β : Type) → Act β → σ → Option (β × σ)} :
    (p >>= k).play f s = (p.play f s).bind fun rt => (k rt.1).play f rt.2 := by
  induction p generalizing s with
  | ret x => rfl
  | act a c ih =>
    rw [act_bind,play,play,Option.bind_assoc]
    congr 1
    funext bt
    exact ih bt.1

theorem play_perform_bind {f : (β : Type) → Act β → σ → Option (β × σ)} :
    (perform a >>= k).play f s = (f ρ a s).bind fun bt => (k bt.1).play f bt.2 := rfl

theorem play_yields {f : (β : Type) → Act β → σ → Option (β × σ)}
    (hf : ∀ (β : Type) (a : Act β) s b t, f β a s = some (b,t) → does β a s b t)
    (h : p.play f s = some (r,s')) : p.Yields does s r s' := by
  induction p generalizing s with
  | ret x =>
    cases h
    exact ⟨rfl,rfl⟩
  | act a k ih =>
    obtain ⟨⟨b,t⟩,hb,hr⟩ := Option.bind_eq_some_iff.mp h
    exact ⟨b,t,hf _ a s b t hb,ih b hr⟩

end

/-- Whatever the allowed answers are, the program returns only such values. -/
def Ensures (ok : (β : Type) → Act β → β → Prop) (P : ρ → Prop) : Prog Act ρ → Prop
  | .ret r => P r
  | .act a k => ∀ b, ok _ a b → (k b).Ensures ok P

theorem Ensures.bind {P : ρ → Prop} {P' : τ → Prop} (hp : p.Ensures ok P)
    (hf : ∀ x, P x → (f x).Ensures ok P') : (p >>= f).Ensures ok P' := by
  induction p with
  | ret x => exact hf x hp
  | act a k ih => exact fun b hb => ih b (hp b hb)

theorem Ensures.returns {P : ρ → Prop} (hp : p.Ensures ok P) (h : p.Returns ok r) : P r := by
  induction p with
  | ret x =>
    obtain rfl : r = x := h
    exact hp
  | act a k ih =>
    obtain ⟨b,hb,hr⟩ := h
    exact ih b (hp b hb) hr

theorem play_returns {f : (β : Type) → Act β → σ → Option (β × σ)}
    (hf : ∀ (β : Type) (a : Act β) s b t, f β a s = some (b,t) → ok β a b)
    (h : p.play f s = some (r,s')) : p.Returns ok r := by
  induction p generalizing s with
  | ret x =>
    cases h
    exact rfl
  | act a k ih =>
    obtain ⟨⟨b,t⟩,hb,hr⟩ := Option.bind_eq_some_iff.mp h
    exact ⟨b,hf _ a s b t hb,ih b hr⟩

/-- Every action the program can come to is of the given kind. -/
def Only (P : (β : Type) → Act β → Prop) : Prog Act ρ → Prop
  | .ret _ => True
  | .act a k => P _ a ∧ ∀ b, (k b).Only P

theorem only_bind (hp : p.Only P) (hf : ∀ x, (f x).Only P) : (p >>= f).Only P := by
  induction p with
  | ret x => exact hf x
  | act a k ih => exact ⟨hp.1,fun b => ih b (hp.2 b)⟩

theorem only_perform_bind (ha : P ρ a) (hf : ∀ x, (f x).Only P) : (perform a >>= f).Only P := ⟨ha,hf⟩

theorem Only.mono (hp : p.Only P) (h : ∀ (β : Type) (a : Act β), P β a → P' β a) : p.Only P' := by
  induction p with
  | ret r => trivial
  | act a k ih => exact ⟨h _ a hp.1,fun b => ih b (hp.2 b)⟩

/-- What every action of the kind preserves, the program does. -/
theorem Only.yields (hrefl : ∀ s, R s s) (htrans : ∀ s t u, R s t → R t u → R s u)
    (hstep : ∀ (β : Type) (a : Act β) s b t, P β a → does β a s b t → R s t)
    (hp : p.Only P) (h : p.Yields does s r s') : R s s' := by
  induction p generalizing s with
  | ret x =>
    obtain ⟨-,rfl⟩ := h
    exact hrefl _
  | act a k ih =>
    obtain ⟨b,t,hb,hr⟩ := h
    exact htrans _ _ _ (hstep _ a s b t hp.1 hb) (ih b (hp.2 b) hr)

/-- Program logic over a set of facts: each action takes some facts away and gives others,
and the value returned must be covered by the facts that are left. Only answers that the
relation allows are considered. -/
def Relies {ι : Type} (ok : (β : Type) → Act β → β → Prop) (lose gain : (β : Type) → Act β → β → Set ι)
    (need : ρ → Set ι) : Set ι → Prog Act ρ → Prop
  | S, .ret r => need r ⊆ S
  | S, .act a k => ∀ b, ok _ a b → (k b).Relies ok lose gain need ((S \ lose _ a b) ∪ gain _ a b)

section

variable {ι : Type} {lose gain : (β : Type) → Act β → β → Set ι} {need : ρ → Set ι} {S T : Set ι} {k : β → Prog Act ρ}

/-- More facts do no harm. -/
theorem Relies.mono (h : p.Relies ok lose gain need S) (hst : S ⊆ T) : p.Relies ok lose gain need T := by
  induction p generalizing S T with
  | ret r => exact Set.Subset.trans h hst
  | act a k ih =>
    intro b hb
    exact ih b (h b hb) (Set.union_subset_union_left _ (Set.sdiff_subset_sdiff_left hst))

/-- What two sets of facts each cover, the facts they share cover. -/
theorem Relies.inter (h : p.Relies ok lose gain need S)
    (h' : p.Relies ok lose gain need T) : p.Relies ok lose gain need (S ∩ T) := by
  induction p generalizing S T with
  | ret r => exact Set.subset_inter h h'
  | act a k ih =>
    intro b hb
    refine (ih b (h b hb) (h' b hb)).mono ?_
    rintro x ⟨hs | hg,ht | hg'⟩
    · exact .inl ⟨⟨hs.1,ht.1⟩,hs.2⟩
    · exact .inr hg'
    · exact .inr hg
    · exact .inr hg

@[simp] theorem relies_ret_iff : (Prog.ret r : Prog Act ρ).Relies ok lose gain need S ↔ need r ⊆ S := Iff.rfl

end

/-- Program logic over a state of the program's own: each action finds it as it should be,
answers take it to an allowed next state, and it suits the value returned. -/
def Obeys {G : Type} (pre : G → (β : Type) → Act β → Prop) (next : G → (β : Type) → Act β → β → G → Prop)
    (post : G → ρ → Prop) : Prog Act ρ → G → Prop
  | .ret r, g => post g r
  | .act a k, g => pre g _ a ∧ ∀ b g', next g _ a b g' → (k b).Obeys pre next post g'

theorem obeys_perform_bind : (perform a >>= f).Obeys pre next post g ↔
      pre g ρ a ∧ ∀ b g', next g ρ a b g' → (f b).Obeys pre next post g' := Iff.rfl

theorem Obeys.bind (hp : p.Obeys pre next mid g)
    (hf : ∀ g' r, mid g' r → (f r).Obeys pre next post g') : (p >>= f).Obeys pre next post g := by
  induction p generalizing g with
  | ret r => exact hf g r hp
  | act a k ih => exact ⟨hp.1,fun b g' hn => ih b (hp.2 b g' hn)⟩

theorem Obeys.mono {post : G → ρ → Prop}
    (hp : p.Obeys pre next post g) (h : ∀ g' r, post g' r → post' g' r) : p.Obeys pre next post' g := by
  induction p generalizing g with
  | ret r => exact h g r hp
  | act a k ih => exact ⟨hp.1,fun b g' hn => ih b (hp.2 b g' hn)⟩

theorem Obeys.and {post : G → ρ → Prop} (hp : p.Obeys pre next post g) (hp' : p.Obeys pre' next post' g) :
    p.Obeys pre next (fun g' r => post g' r ∧ post' g' r) g := by
  induction p generalizing g with
  | ret r => exact ⟨hp,hp'⟩
  | act a k ih => exact ⟨hp.1,fun b g' hn => ih b (hp.2 b g' hn) (hp'.2 b g' hn)⟩

/-- The program can pay for its actions out of so much, whatever the allowed answers are; what is
left suits the value returned. -/
def Affords (price : (β : Type) → Act β → ℕ) (ok : (β : Type) → Act β → β → Prop) (post : ℕ → ρ → Prop)
    (p : Prog Act ρ) (n : ℕ) : Prop :=
  p.Obeys (fun n β a => price β a ≤ n) (fun n β a b n' => ok β a b ∧ n' = n-price β a) post n

section

variable {price : (β : Type) → Act β → ℕ} {n : ℕ} {post : ℕ → τ → Prop} {mid : ℕ → ρ → Prop}

theorem affords_perform_bind : (perform a >>= f).Affords price ok post n ↔
      price ρ a ≤ n ∧ ∀ b, ok ρ a b → (f b).Affords price ok post (n-price ρ a) := by
  constructor
  · intro h
    exact ⟨h.1,fun b hb => h.2 b _ ⟨hb,rfl⟩⟩
  rintro ⟨hn,h⟩
  refine ⟨hn,?_⟩
  rintro b n' ⟨hb,rfl⟩
  exact h b hb

theorem Affords.bind (hp : p.Affords price ok mid n) (hf : ∀ n' r, mid n' r → (f r).Affords price ok post n') :
    (p >>= f).Affords price ok post n :=
  Obeys.bind hp hf

end

/-- What actions of a kind preserve of the program's own state. -/
theorem Only.obeys (hp : p.Only P) (hpre : ∀ g (β : Type) (a : Act β), I g → P β a → pre g β a)
    (hnext : ∀ g (β : Type) (a : Act β) b g', I g → P β a → next g β a b g' → I g') (hg : I g) :
    p.Obeys pre next (fun g' _ => I g') g := by
  induction p generalizing g with
  | ret r => exact hg
  | act a k ih =>
    refine ⟨hpre g _ a hg hp.1,?_⟩
    intro b g' hn
    exact ih b (hp.2 b) (hnext g _ a b g' hg hp.1 hn)

universe v

/-- The same program with its actions as actions of another kind. -/
def embed {Act' : Type → Type v} (f : {β : Type} → Act β → Act' β) : Prog Act ρ → Prog Act' ρ
  | .ret r => .ret r
  | .act a k => .act (f a) fun b => (k b).embed f

theorem embed_bind (f : {β : Type} → Act β → Act' β) (p : Prog Act ρ)
    (k : ρ → Prog Act τ) : (p >>= k).embed f = (p.embed f >>= fun x => (k x).embed f) := by
  induction p with
  | ret x => rfl
  | act a c ih =>
    simp only [act_bind,embed]
    congr 1
    funext b
    exact ih b

theorem only_embed {f : {β : Type} → Act β → Act' β} {P : (β : Type) → Act' β → Prop}
    (hp : ∀ (β : Type) (a : Act β), P β (f a)) : (p.embed f).Only P := by
  induction p with
  | ret r => trivial
  | act a k ih => exact ⟨hp _ a,ih⟩

theorem obeys_embed {f : {β : Type} → Act β → Act' β}
    {pre : G → (β : Type) → Act' β → Prop} {next : G → (β : Type) → Act' β → β → G → Prop}
    {post : G → ρ → Prop} : (p.embed f).Obeys pre next post g ↔
      p.Obeys (fun g β a => pre g β (f a)) (fun g β a => next g β (f a)) post g := by
  induction p generalizing g with
  | ret r => rfl
  | act a k ih => exact and_congr Iff.rfl (forall_congr' fun b => forall_congr' fun g' => imp_congr Iff.rfl (ih b))

end Prog
end AdbShare
