import Mathlib.Tactic

/-! Frames in a stream: a header of fixed size that tells how long the body is. Two readers
take the frames apart as the stream arrives in pieces, one that reads exactly what it needs
next and one that keeps a buffer; both see what a parser of the whole stream sees. -/
namespace AdbShare

open List

/-- The size of the header, the length of the body as the header gives it, and the longest
body that is accepted. -/
structure Framing (α : Type) where
  header : ℕ
  header_pos : 0 < header
  bodyLen : List α → ℕ
  limit : ℕ

namespace Framing

variable {α : Type} (F : Framing α)

/-- A header with its body. -/
abbrev Frame (α : Type) := List α × List α

/-- Whether the reader waits for more or has met a body over the limit. -/
inductive Ending
  | waiting
  | oversized (len : ℕ)
deriving DecidableEq

/-- The frames of the whole stream. -/
def parse (bs : List α) : List (Frame α) × Ending :=
  if _hh : F.header ≤ bs.length then
    let len := F.bodyLen (bs.take F.header)
    if F.limit < len then ([],.oversized len)
    else if F.header+len ≤ bs.length then
      let rest := parse (bs.drop (F.header+len))
      ((bs.take F.header,(bs.drop F.header).take len)::rest.1,rest.2)
    else ([],.waiting)
  else ([],.waiting)
termination_by bs.length
decreasing_by
  have := F.header_pos
  rw [length_drop]
  omega

/-- `read_exact`: the next `n` of what arrives piece by piece; none while they are not all
there. -/
def readExact : ℕ → List (List α) → Option (List α × List (List α))
  | 0, cs => some ([],cs)
  | _+1, [] => none
  | n+1, c::cs =>
    if n+1 < c.length then some (c.take (n+1),c.drop (n+1)::cs)
    else (readExact (n+1-c.length) cs).map fun r => (c++r.1,r.2)

/-- The reader that reads exactly the header and then exactly the body. -/
def exactLoop : ℕ → List (List α) → List (Frame α) × Ending
  | 0, _ => ([],.waiting)
  | fuel+1, cs =>
    match readExact F.header cs with
    | none => ([],.waiting)
    | some (head,cs) =>
      let len := F.bodyLen head
      if F.limit < len then ([],.oversized len)
      else
        match readExact len cs with
        | none => ([],.waiting)
        | some (body,cs) =>
          let rest := exactLoop fuel cs
          ((head,body)::rest.1,rest.2)

/-- Read into the buffer until it holds `n`. -/
def fill (n : ℕ) : List α → List (List α) → Option (List α × List (List α))
  | buf, [] => if n ≤ buf.length then some (buf,[]) else none
  | buf, c::cs => if n ≤ buf.length then some (buf,c::cs) else fill n (buf++c) cs

/-- The reader that keeps what it has read beyond the frame in its buffer. -/
def bufferLoop : ℕ → List α → List (List α) → List (Frame α) × Ending
  | 0, _, _ => ([],.waiting)
  | fuel+1, buf, cs =>
    match fill F.header buf cs with
    | none => ([],.waiting)
    | some (buf,cs) =>
      let len := F.bodyLen (buf.take F.header)
      if F.limit < len then ([],.oversized len)
      else
        match fill (F.header+len) buf cs with
        | none => ([],.waiting)
        | some (buf,cs) =>
          let rest := bufferLoop fuel (buf.drop (F.header+len)) cs
          ((buf.take F.header,(buf.drop F.header).take len)::rest.1,rest.2)

section

variable {F} {cs : List (List α)} {buf : List α} {n fuel : ℕ}

theorem readExact_some (h : n ≤ cs.flatten.length) :
    ∃ cs', readExact n cs = some (cs.flatten.take n,cs') ∧ cs'.flatten = cs.flatten.drop n := by
  induction cs generalizing n with
  | nil =>
    obtain rfl : n = 0 := by simpa using h
    exact ⟨[],rfl,rfl⟩
  | cons c cs ih =>
    cases n with
    | zero => exact ⟨c::cs,rfl,rfl⟩
    | succ n =>
      rw [flatten_cons,length_append] at h
      rw [readExact,flatten_cons]
      split
      · rename_i hlt
        refine ⟨c.drop (n+1)::cs,?_,?_⟩
        · rw [take_append_of_le_length hlt.le]
        · rw [flatten_cons,drop_append_of_le_length hlt.le]
      · rename_i hge
        obtain ⟨cs',hread,hrest⟩ := ih (n:=n+1-c.length) (by omega)
        refine ⟨cs',?_,?_⟩
        · rw [hread,Option.map_some,take_append,take_of_length_le (Nat.le_of_not_lt hge)]
        · rw [hrest,drop_append,drop_of_length_le (Nat.le_of_not_lt hge),nil_append]

theorem readExact_none (h : cs.flatten.length < n) : readExact n cs = none := by
  induction cs generalizing n with
  | nil =>
    cases n with
    | zero => simp at h
    | succ n => rfl
  | cons c cs ih =>
    cases n with
    | zero => simp at h
    | succ n =>
      rw [flatten_cons,length_append] at h
      rw [readExact,if_neg (by omega),ih (by omega)]
      rfl

theorem fill_some (h : n ≤ buf.length+cs.flatten.length) :
    ∃ buf' cs', fill n buf cs = some (buf',cs') ∧ buf'++cs'.flatten = buf++cs.flatten ∧ n ≤ buf'.length := by
  induction cs generalizing buf with
  | nil =>
    have hn : n ≤ buf.length := by simpa using h
    exact ⟨buf,[],if_pos hn,rfl,hn⟩
  | cons c cs ih =>
    rw [fill]
    split
    · rename_i hn
      exact ⟨buf,c::cs,rfl,rfl,hn⟩
    have hn : n ≤ (buf++c).length+cs.flatten.length := by
      rw [flatten_cons,length_append] at h
      rw [length_append]
      omega
    obtain ⟨buf',cs',hfill,hall,hn⟩ := ih hn
    exact ⟨buf',cs',hfill,by rw [hall,flatten_cons,append_assoc],hn⟩

theorem fill_none (h : buf.length+cs.flatten.length < n) : fill n buf cs = none := by
  induction cs generalizing buf with
  | nil => exact if_neg (by simpa using h)
  | cons c cs ih =>
    rw [flatten_cons,length_append] at h
    rw [fill,if_neg (by omega)]
    exact ih (by rw [length_append]; omega)

/-- Reading exactly what is needed finds the frames of the whole stream, however it arrives. -/
theorem exactLoop_eq (h : cs.flatten.length ≤ fuel) : F.exactLoop fuel cs = F.parse cs.flatten := by
  induction fuel generalizing cs with
  | zero =>
    have hpos := F.header_pos
    rw [exactLoop,parse,dif_neg (by omega)]
  | succ fuel ih =>
    rw [exactLoop,parse]
    by_cases hh : F.header ≤ cs.flatten.length
    · obtain ⟨cs₁,hread,hrest⟩ := readExact_some hh
      rw [hread,dif_pos hh]
      dsimp only
      split
      · rfl
      by_cases hb : F.header+F.bodyLen (cs.flatten.take F.header) ≤ cs.flatten.length
      · have hlen : F.bodyLen (cs.flatten.take F.header) ≤ cs₁.flatten.length := by
          rw [hrest,length_drop]
          omega
        obtain ⟨cs₂,hread₂,hrest₂⟩ := readExact_some hlen
        have hpos := F.header_pos
        have hshort : cs₂.flatten.length ≤ fuel := by
          rw [hrest₂,hrest,length_drop,length_drop]
          omega
        rw [hread₂,if_pos hb]
        dsimp only
        rw [ih hshort,hrest₂,hrest,drop_drop]
      · rw [readExact_none (by rw [hrest,length_drop]; omega),if_neg hb]
    · rw [readExact_none (by omega),dif_neg hh]

/-- Keeping a buffer finds the frames of the whole stream, however it arrives. -/
theorem bufferLoop_eq (h : buf.length+cs.flatten.length ≤ fuel) : F.bufferLoop fuel buf cs = F.parse (buf++cs.flatten) := by
  induction fuel generalizing buf cs with
  | zero =>
    have hpos := F.header_pos
    rw [bufferLoop,parse,dif_neg (by rw [length_append]; omega)]
  | succ fuel ih =>
    rw [bufferLoop,parse]
    by_cases hh : F.header ≤ buf.length+cs.flatten.length
    · obtain ⟨buf₁,cs₁,hfill,hall,hhead⟩ := fill_some hh
      have hhead_eq : buf₁.take F.header = (buf++cs.flatten).take F.header := by
        rw [← hall,take_append_of_le_length hhead]
      have hsize := congrArg List.length hall
      rw [length_append,length_append] at hsize
      rw [hfill,dif_pos (by rwa [length_append])]
      dsimp only
      rw [hhead_eq]
      generalize F.bodyLen ((buf++cs.flatten).take F.header) = len
      split
      · rfl
      by_cases hb : F.header+len ≤ buf.length+cs.flatten.length
      · obtain ⟨buf₂,cs₂,hfill₂,hall₂,hbody⟩ := fill_some (hsize ▸ hb)
        have hpos := F.header_pos
        have hsize₂ := congrArg List.length hall₂
        rw [length_append,length_append] at hsize₂
        rw [hfill₂,if_pos (by rwa [length_append])]
        dsimp only
        rw [ih (by rw [length_drop]; omega),← hall₂.trans hall,drop_append_of_le_length hbody,
          take_append_of_le_length (by omega : F.header ≤ buf₂.length),
          drop_append_of_le_length (by omega : F.header ≤ buf₂.length),
          take_append_of_le_length (by rw [length_drop]; omega)]
      · rw [fill_none (by omega),if_neg (by rwa [length_append])]
    · rw [fill_none (by omega),dif_neg (by rwa [length_append])]

end

/-- The header belongs to the body. -/
def Fits (f : Frame α) : Prop := f.1.length = F.header ∧ F.bodyLen f.1 = f.2.length

/-- The bytes of a frame. -/
def flat (f : Frame α) : List α := f.1++f.2

variable {F} {fs : List (Frame α)} {f : Frame α}

theorem parse_cons (hf : F.Fits f) (rest : List α) :
    F.parse (flat f++rest) = if F.limit < f.2.length then ([],.oversized f.2.length)
      else (f::(F.parse rest).1,(F.parse rest).2) := by
  obtain ⟨hlen,hbody⟩ := hf
  have hhead : (flat f++rest).take F.header = f.1 := by
    rw [flat,append_assoc,← hlen,take_left]
  have hdrop : (flat f++rest).drop F.header = f.2++rest := by
    rw [flat,append_assoc,← hlen,drop_left]
  have hskip : (flat f++rest).drop (F.header+f.2.length) = rest := by
    rw [← drop_drop,hdrop,drop_left]
  have hsize : (flat f++rest).length = F.header+f.2.length+rest.length := by
    simp [flat,hlen,Nat.add_assoc]
  rw [parse,dif_pos (by omega)]
  dsimp only
  rw [hhead,hbody]
  split
  · rfl
  · rw [if_pos (by omega),hskip,hdrop,take_left]

/-- Frames within the limit are all found. -/
theorem parse_within (hfs : ∀ f ∈ fs, F.Fits f) (h : ∀ f ∈ fs, f.2.length ≤ F.limit) :
    F.parse (fs.map flat).flatten = (fs,.waiting) := by
  induction fs with
  | nil =>
    have hpos := F.header_pos
    rw [parse,dif_neg (by simpa using hpos.ne')]
  | cons f fs ih =>
    have hf := h f mem_cons_self
    rw [map_cons,flatten_cons,parse_cons (hfs f mem_cons_self),if_neg (by omega),
      ih (fun f hf => hfs f (mem_cons_of_mem _ hf)) (fun f hf => h f (mem_cons_of_mem _ hf))]

theorem within_of_waiting (hfs : ∀ f ∈ fs, F.Fits f)
    (h : (F.parse (fs.map flat).flatten).2 = .waiting) : ∀ f ∈ fs, f.2.length ≤ F.limit := by
  induction fs with
  | nil => simp
  | cons f fs ih =>
    rw [map_cons,flatten_cons,parse_cons (hfs f mem_cons_self)] at h
    split_ifs at h with hunder
    exact forall_mem_cons.mpr ⟨by omega,ih (fun f hf => hfs f (mem_cons_of_mem _ hf)) h⟩

end Framing
end AdbShare
