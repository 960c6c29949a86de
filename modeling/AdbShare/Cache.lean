import AdbShare.Dict
import AdbShare.Path

/-! The caches of the FUSE layer: stats and directory listings by path, each entry with
the time it was stored. Every operation is one critical section of the cache's lock. -/
namespace AdbShare

open List Dict

variable {α : Type} {now : ℕ} {v : α × ℕ} {path q : Path}

def MAX_ENTRIES : ℕ := 8192

structure StatCache (α : Type) where
  inner : Dict Path (α × ℕ)
  ttl : ℕ

namespace StatCache

def new (ttl : ℕ) : StatCache α := ⟨∅,ttl⟩

/-- `when.elapsed() < ttl`. -/
def live (c : StatCache α) (now : ℕ) (v : α × ℕ) : Bool := decide (now-v.2 < c.ttl)

def get (c : StatCache α) (now : ℕ) (path : Path) : Option α × StatCache α :=
  match c.inner.lookup path with
  | some v =>
    if c.live now v then (some v.1,c) else (none,{ c with inner := c.inner.erase path })
  | none => (none,c)

/-- Make room: first what has expired goes, then everything. -/
def shrink (c : StatCache α) (now : ℕ) : Dict Path (α × ℕ) :=
  if MAX_ENTRIES ≤ c.inner.size then
    let kept := c.inner.retain fun _ v => c.live now v
    if MAX_ENTRIES ≤ kept.size then ∅ else kept
  else c.inner

def put (c : StatCache α) (now : ℕ) (path : Path) (stat : α) : StatCache α :=
  { c with inner := (c.shrink now).insert path (stat,now) }

def invalidate (c : StatCache α) (path : Path) : StatCache α :=
  { c with inner := c.inner.erase path }

def invalidatePrefix (c : StatCache α) (base : Path) : StatCache α :=
  { c with inner := c.inner.retain fun k _ => !k.startsWith base }

/-- The entry for a path, expired or not. -/
def find (c : StatCache α) (path : Path) : Option (α × ℕ) := c.inner.lookup path

variable {c : StatCache α} {s stat : α}

theorem get_fst (h : (c.get now path).1 = some s) : ∃ w, c.find path = some (s,w) := by
  unfold get at h
  cases hv : c.inner.lookup path with
  | none => simp [hv] at h
  | some v =>
    simp only [hv] at h
    by_cases hl : c.live now v
    · simp only [hl,if_true,Option.some.injEq] at h
      exact ⟨v.2,by rw [find,hv,← h]⟩
    · simp [hl] at h

theorem find_get (h : (c.get now path).2.find q = some v) : c.find q = some v := by
  unfold get at h
  cases hv : c.inner.lookup path with
  | none => simpa [hv] using h
  | some w =>
    simp only [hv] at h
    by_cases hl : c.live now w
    · simpa [hl] using h
    simp only [hl,find,lookup_erase_if,Bool.false_eq_true,if_false] at h
    by_cases hq : q = path
    · simp [hq] at h
    · simpa [find,hq] using h

theorem lookup_shrink (h : (c.shrink now).lookup q = some v) : c.find q = some v := by
  unfold shrink at h
  by_cases hfull : MAX_ENTRIES ≤ c.inner.size
  · simp only [hfull,if_true] at h
    split at h
    · simp at h
    · exact (lookup_retain_iff.mp h).1
  · simpa [find,hfull] using h

theorem find_put (h : (c.put now path stat).find q = some v) :
    q = path ∧ v = (stat,now) ∨ q ≠ path ∧ c.find q = some v := by
  simp only [put,find,lookup_insert_if] at h
  by_cases hq : q = path
  · simp only [hq,if_true,Option.some.injEq] at h
    exact .inl ⟨hq,h.symm⟩
  · simp only [hq,if_false] at h
    exact .inr ⟨hq,lookup_shrink h⟩

theorem find_invalidate (c : StatCache α) (path q : Path) :
    (c.invalidate path).find q = if q = path then none else c.find q :=
  lookup_erase_if c.inner path q

theorem find_invalidatePrefix (c : StatCache α) (base q : Path) :
    (c.invalidatePrefix base).find q = if q.startsWith base then none else c.find q := by
  simp only [find,invalidatePrefix,lookup_retain_of_keys]
  by_cases h : q.startsWith base <;> simp [h]

end StatCache

structure DirCache (α : Type) where
  map : Dict Path (α × ℕ)
  /-- Eviction order, oldest first. -/
  order : List Path
  /-- Bumped by every invalidation. -/
  epoch : UInt64
  ttl : ℕ
  capacity : ℕ
  capacity_pos : 0 < capacity

namespace DirCache

def new (ttl capacity : ℕ) : DirCache α :=
  ⟨∅,[],0,ttl,max capacity 1,lt_of_lt_of_le Nat.one_pos (le_max_right _ _)⟩

def removeEntry (c : DirCache α) (path : Path) : DirCache α :=
  { c with map := c.map.erase path, order := c.order.filter fun k => k ≠ path }

def get (c : DirCache α) (now : ℕ) (path : Path) : Option α × DirCache α :=
  match c.map.lookup path with
  | some v => if now-v.2 < c.ttl then (some v.1,c) else (none,c.removeEntry path)
  | none => (none,c)

/-- Drop the oldest directories until one more fits. -/
def evict (capacity : ℕ) : List Path → Dict Path (α × ℕ) → List Path × Dict Path (α × ℕ)
  | [], m => ([],m)
  | oldest::order, m =>
    if capacity ≤ (oldest::order).length then evict capacity order (m.erase oldest)
    else (oldest::order,m)

def put (c : DirCache α) (now : ℕ) (path : Path) (entries : α) (epoch : UInt64) : DirCache α :=
  if c.epoch ≠ epoch then c
  else
    let room := evict c.capacity (c.order.erase path) c.map
    { c with map := room.2.insert path (entries,now), order := room.1++[path] }

def invalidate (c : DirCache α) (path : Path) : DirCache α :=
  { c.removeEntry path with epoch := c.epoch+1 }

def invalidatePrefix (c : DirCache α) (base : Path) : DirCache α :=
  let dropped := c.map.keysWhere fun k => k.startsWith base
  { c with
    epoch := c.epoch+1
    map := dropped.foldl (fun m k => m.erase k) c.map
    order := c.order.filter fun k => !dropped.contains k }

def find (c : DirCache α) (path : Path) : Option (α × ℕ) := c.map.lookup path

theorem find_removeEntry (c : DirCache α) (path q : Path) :
    (c.removeEntry path).find q = if q = path then none else c.find q :=
  lookup_erase_if c.map path q

variable {c : DirCache α} {capacity : ℕ} {e entries : α} {order : List Path} {m : Dict Path (α × ℕ)} {epoch : UInt64}

theorem get_fst (h : (c.get now path).1 = some e) : ∃ w, c.find path = some (e,w) := by
  unfold get at h
  cases hv : c.map.lookup path with
  | none => simp [hv] at h
  | some v =>
    simp only [hv] at h
    by_cases hl : now-v.2 < c.ttl
    · simp only [hl,if_true,Option.some.injEq] at h
      exact ⟨v.2,by rw [find,hv,← h]⟩
    · simp [hl] at h

theorem find_get (h : (c.get now path).2.find q = some v) : c.find q = some v := by
  unfold get at h
  cases hv : c.map.lookup path with
  | none => simpa [hv] using h
  | some w =>
    simp only [hv] at h
    by_cases hl : now-w.2 < c.ttl
    · simpa [hl] using h
    simp only [hl,if_false,find_removeEntry] at h
    by_cases hq : q = path
    · simp [hq] at h
    · simpa [hq] using h

theorem epoch_get (c : DirCache α) (now : ℕ) (path : Path) : (c.get now path).2.epoch = c.epoch := by
  unfold get
  split
  · split <;> rfl
  · rfl

/-- Of the directories as many of the oldest go as there are too many. -/
theorem evict_eq (capacity : ℕ) (order : List Path) (m : Dict Path (α × ℕ)) :
    (evict capacity order m).1 = order.drop (order.length+1-capacity) ∧ ∀ q,
      (evict capacity order m).2.lookup q = if q ∈ order.take (order.length+1-capacity) then none else m.lookup q := by
  induction order generalizing m with
  | nil => simp [evict]
  | cons oldest order ih =>
    rw [evict,length_cons]
    by_cases hfull : capacity ≤ order.length+1
    · rw [if_pos hfull,show order.length+1+1-capacity = order.length+1-capacity+1 by omega]
      refine ⟨(ih _).1,fun q => ?_⟩
      rw [(ih _).2,lookup_erase_if]
      by_cases hq : q = oldest <;> simp [hq]
    · rw [if_neg hfull,show order.length+1+1-capacity = 0 by omega]
      simp

theorem lookup_evict (h : (evict capacity order m).2.lookup q = some v) : m.lookup q = some v := by
  rw [(evict_eq capacity order m).2] at h
  exact (Option.ite_none_left_eq_some.mp h).2

theorem find_put (h : (c.put now path entries epoch).find q = some v) :
    q = path ∧ v = (entries,now) ∧ c.epoch = epoch ∨ c.find q = some v := by
  unfold put at h
  by_cases he : c.epoch = epoch
  · simp only [he,ne_eq,not_true_eq_false,if_false,find,lookup_insert_if] at h
    by_cases hq : q = path
    · simp only [hq,if_true,Option.some.injEq] at h
      exact .inl ⟨hq,h.symm,he⟩
    · simp only [hq,if_false] at h
      exact .inr (lookup_evict h)
  · exact .inr (by simpa [he] using h)

theorem epoch_put (c : DirCache α) (now : ℕ) (path : Path) (entries : α) (epoch : UInt64) :
    (c.put now path entries epoch).epoch = c.epoch := by
  unfold put
  split <;> rfl

theorem find_invalidate (c : DirCache α) (path q : Path) :
    (c.invalidate path).find q = if q = path then none else c.find q :=
  find_removeEntry c path q

theorem find_invalidatePrefix (c : DirCache α) (base q : Path) :
    (c.invalidatePrefix base).find q = if q.startsWith base then none else c.find q := by
  have hlookup := lookup_eraseAll c.map (c.map.keysWhere fun k => k.startsWith base) q
  refine hlookup.trans ?_
  unfold find
  by_cases hb : q.startsWith base
  · cases hv : c.map.lookup q with
    | none => simp
    | some v =>
      have hm : q ∈ c.map.keysWhere fun k => k.startsWith base := mem_keysWhere.mpr ⟨⟨v,hv⟩,hb⟩
      simp [hm,hb]
  · have hm : q ∉ c.map.keysWhere fun k => k.startsWith base :=
      fun hm => hb (mem_keysWhere.mp hm).2
    simp [hm,hb]

/-- A put stores its entries: the path goes to the end, and the oldest directories go if there are too many. -/
structure Stores (c : DirCache α) (now : ℕ) (path : Path) (entries : α) : Prop where
  order : (c.put now path entries c.epoch).order =
    (c.order.erase path).drop ((c.order.erase path).length+1-c.capacity)++[path]
  find : ∀ q, (c.put now path entries c.epoch).find q = if q = path then some (entries,now)
    else if q ∈ (c.order.erase path).take ((c.order.erase path).length+1-c.capacity) then none else c.find q

theorem put_accepted (c : DirCache α) (now : ℕ) (path : Path) (entries : α) : Stores c now path entries := by
  obtain ⟨horder,hmap⟩ := evict_eq c.capacity (c.order.erase path) c.map
  constructor
  all_goals
    rw [put,if_neg (not_not.mpr rfl)]
    simp [find,lookup_insert_if,horder,hmap]

/-- One call of the cache. -/
inductive Op (α : Type)
  | put (now : ℕ) (path : Path) (entries : α) (epoch : UInt64)
  | get (now : ℕ) (path : Path)
  | invalidate (path : Path)
  | invalidatePrefix (base : Path)

/-- The cache, and the paths of the puts that it has accepted, after one more call. -/
def Op.apply (s : DirCache α × List Path) : Op α → DirCache α × List Path
  | .put now path entries epoch => (s.1.put now path entries epoch,if s.1.epoch = epoch then s.2++[path] else s.2)
  | .get now path => ((s.1.get now path).2,s.2)
  | .invalidate path => (s.1.invalidate path,s.2)
  | .invalidatePrefix base => (s.1.invalidatePrefix base,s.2)

/-- The order holds the keys of the map, each once, as they were last put. -/
structure Ordered (bound : ℕ) (c : DirCache α) (puts : List Path) : Prop where
  sublist : c.order.Sublist puts.dedup
  keys : ∀ q, q ∈ c.order ↔ (c.find q).isSome = true
  capacity : c.capacity = bound
  length_le : c.order.length ≤ bound

theorem dedup_concat (puts : List Path) (path : Path) :
    (puts++[path]).dedup = puts.dedup.filter (· != path)++[path] := by
  induction puts with
  | nil => rfl
  | cons q puts ih =>
    rw [cons_append]
    by_cases hq : q ∈ puts
    · simp [hq,ih]
    · rw [dedup_cons_of_notMem hq]
      by_cases hp : q = path <;> simp [hq,hp,ih]

section

variable {puts : List Path} {d : DirCache α} {bound : ℕ}

theorem Ordered.nodup (h : Ordered bound c puts) : c.order.Nodup := (nodup_dedup puts).sublist h.sublist

/-- Some of the directories go. -/
theorem Ordered.shrink (h : Ordered bound c puts) (p : Path → Bool) (horder : d.order = c.order.filter p)
    (hfind : ∀ q, (d.find q).isSome = (p q && (c.find q).isSome)) (hcap : d.capacity = c.capacity) :
    Ordered bound d puts where
  sublist := horder ▸ filter_sublist.trans h.sublist
  keys q := by simp [horder,hfind,h.keys,and_comm]
  capacity := hcap.trans h.capacity
  length_le := horder ▸ (length_filter_le ..).trans h.length_le

theorem Ordered.removeEntry (h : Ordered bound c puts) (path : Path) : Ordered bound (c.removeEntry path) puts :=
  h.shrink (fun k => k ≠ path) rfl (fun q => by by_cases hq : q = path <;> simp [find_removeEntry,hq]) rfl

theorem Ordered.put (h : Ordered bound c puts) (now : ℕ) (path : Path) (entries : α) :
    Ordered bound (c.put now path entries c.epoch) (puts++[path]) := by
  have hpos := c.capacity_pos
  have hbound := h.capacity
  have hnodup := h.nodup.erase path
  have hkept := h.nodup.erase_eq_filter path
  obtain ⟨horder,hfind⟩ := put_accepted c now path entries
  refine ⟨?_,fun q => ?_,?_,?_⟩
  · rw [horder,dedup_concat,hkept]
    exact ((drop_sublist ..).trans (h.sublist.filter _)).append_right _
  · have hmem := h.nodup.mem_erase_iff (a:=q) (b:=path)
    rw [horder,hfind,mem_append,mem_singleton]
    rw [h.keys] at hmem
    generalize c.order.erase path = l at hmem hnodup ⊢
    have hdisjoint := disjoint_take_drop hnodup (le_refl (l.length+1-c.capacity))
    rw [← take_append_drop (l.length+1-c.capacity) l,mem_append] at hmem
    by_cases hq : q = path
    · simp [hq]
    by_cases htake : q ∈ l.take (l.length+1-c.capacity)
    · simpa [hq,htake] using fun hdrop => hdisjoint htake hdrop
    · simpa [hq,htake] using hmem
  · rw [DirCache.put,if_neg (not_not.mpr rfl)]
    exact hbound
  · rw [horder,length_append,length_drop,length_singleton]
    omega

theorem Ordered.apply {s : DirCache α × List Path} (h : Ordered bound s.1 s.2) (op : Op α) :
    Ordered bound (op.apply s).1 (op.apply s).2 := by
  cases op with
  | put now path entries epoch =>
    by_cases hepoch : s.1.epoch = epoch
    · subst hepoch
      simpa [Op.apply] using h.put now path entries
    · simpa [Op.apply,DirCache.put,hepoch] using h
  | get now path =>
    simp only [Op.apply,DirCache.get]
    split
    · split
      · exact h
      · exact h.removeEntry path
    · exact h
  | invalidate path => exact (h.removeEntry path).shrink (fun _ => true) (by simp; rfl) (fun q => by simp; rfl) rfl
  | invalidatePrefix base =>
    refine h.shrink (fun k => !(s.1.map.keysWhere fun k => k.startsWith base).contains k) rfl (fun q => ?_) rfl
    have hfind := lookup_eraseAll s.1.map (s.1.map.keysWhere fun k => k.startsWith base) q
    refine (congrArg Option.isSome hfind).trans ?_
    by_cases hq : q ∈ s.1.map.keysWhere fun k => k.startsWith base <;> simp [hq,find]

/-- After any calls, the order holds the keys of the map, each once, in the order in which they were
last put, and no more than fit; a put stores its entries if its epoch is the current one and
nothing otherwise; and a new path that is put when it is full takes the place of the oldest one. -/
theorem order_exact (ttl capacity : ℕ) (ops : List (Op α)) :
    ∃ c puts, ops.foldl Op.apply (new ttl capacity,[]) = (c,puts) ∧ c.order.Sublist puts.dedup ∧ c.order.Nodup ∧
      (∀ q, q ∈ c.order ↔ (c.find q).isSome) ∧ c.order.length ≤ max capacity 1 ∧
        (∀ now path entries, Stores c now path entries ∧ ∀ epoch, epoch ≠ c.epoch → c.put now path entries epoch = c) ∧
        ∀ now path entries oldest rest, c.order = oldest::rest → c.order.length = max capacity 1 → path ∉ c.order →
          (c.put now path entries c.epoch).order = rest++[path] ∧ ∀ q, (c.put now path entries c.epoch).find q =
            if q = path then some (entries,now) else if q = oldest then none else c.find q := by
  have h : Ordered (max capacity 1) (ops.foldl Op.apply (new ttl capacity,[])).1
      (ops.foldl Op.apply (new ttl capacity,[])).2 := by
    induction ops using reverseRecOn with
    | nil => exact ⟨nil_sublist _,fun q => by simp [find,new],rfl,Nat.zero_le _⟩
    | append_singleton ops op ih =>
      rw [foldl_concat]
      exact ih.apply op
  refine ⟨_,_,rfl,h.sublist,h.nodup,h.keys,h.length_le,?_,?_⟩
  · intro now path entries
    exact ⟨put_accepted _ now path entries,fun epoch hne => if_pos hne.symm⟩
  generalize (ops.foldl Op.apply (new ttl capacity,[])).1 = c at h ⊢
  intro now path entries oldest rest horder hfull hnew
  obtain ⟨hput,hfind⟩ := put_accepted c now path entries
  rw [erase_of_not_mem hnew,hfull,h.capacity,Nat.add_sub_cancel_left,horder] at hput hfind
  exact ⟨hput,by simpa using hfind⟩

end

end DirCache
end AdbShare
