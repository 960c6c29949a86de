import AdbShare.Manifest

/-! When the reading of a manifest or of a resource table comes to an end without a panic. -/
namespace AdbShare.Manifest

open Slices Rounds

/-- A string of a UTF-8 pool: what is taken for its first length does not lead past the end. -/
def StringFits (chunk : Bytes) (s : ℕ) : Prop :=
  s < chunk.length → (decodeLength (chunk.drop s)).1 ≤ chunk.length-s

/-- There is room for as many strings as the pool is said to have, and they are such, if it is one of UTF-8. -/
def PoolFits (limit : ℕ) (chunk : Bytes) : Prop :=
  ∀ {count flags stringsStart : ℕ}, 28 ≤ chunk.length → le32At chunk 8 = some count → le32At chunk 16 = some flags →
    le32At chunk 20 = some stringsStart → count ≤ limit ∧ (isUtf8Pool flags = true →
    ∀ i so, i < count → 28+i*4+4 ≤ chunk.length → le32At chunk (28+i*4) = some so →
      StringFits chunk (stringsStart+so))

/-- The chunk is handled without a panic. -/
def Readable (limit : ℕ) (c : Chunk) : Prop :=
  (c.kind = RES_STRING_POOL → PoolFits limit c.bytes) ∧ (c.kind = RES_XML_RESOURCE_MAP → 4 ∣ c.size-c.header)

/-- It is not one at which the reading ends with an error. -/
def Accepted (c : Chunk) : Prop :=
  (c.kind = RES_STRING_POOL → 28 ≤ c.bytes.length) ∧
    (c.kind = RES_XML_START_ELEMENT → c.header+20 ≤ c.bytes.length ∧
      ∀ attributeSize, le16At c.bytes (c.header+10) = some attributeSize → 20 ≤ attributeSize)

/-- The positions at which a chunk is looked for: behind the header of a wrapper, and behind every
other chunk that is accepted. -/
inductive Walk (data : Bytes) : ℕ → Prop
  | start : Walk data 0
  | inner {pos : ℕ} {c : Chunk} (h : Walk data pos) (hc : chunkAt data pos = some (some c))
      (hkind : c.kind = RES_XML_TYPE) : Walk data (pos+c.header)
  | next {pos : ℕ} {c : Chunk} (h : Walk data pos) (hc : chunkAt data pos = some (some c))
      (hkind : c.kind ≠ RES_XML_TYPE) (haccepted : Accepted c) : Walk data (pos+c.size)

/-- The chunks come to are readable, and no wrapper has an empty header. -/
def Tame (limit : ℕ) (data : Bytes) : Prop :=
  ∀ {pos : ℕ} {c : Chunk}, Walk data pos → chunkAt data pos = some (some c) →
    (c.kind = RES_XML_TYPE → c.header ≠ 0) ∧ Readable limit c

variable {data : Bytes} {c : Chunk} {pos limit : ℕ}

section

variable {chunk : Bytes} {st st' : State} {s stringsStart count i attributeSize : ℕ} {utf8 : Bool}
  {strings : List Bytes} {e : String}

theorem decodeLength_snd_le (bs : Bytes) : (decodeLength bs).2 ≤ bs.length := by
  cases bs with
  | nil => exact le_rfl
  | cons b bs =>
    cases bs with
    | nil => exact le_rfl
    | cons d bs =>
      rw [decodeLength]
      split
      · exact Nat.le_add_left 2 _
      · exact Nat.le_add_left 1 _

theorem exists_readUtf8String_iff (h : data ≠ []) :
    (∃ s, readUtf8String data = some s) ↔ (decodeLength data).1 ≤ data.length := by
  rw [readUtf8String,if_neg h]
  obtain hle | hlt := le_or_gt (decodeLength data).1 data.length
  · simp only [dropAt_of_le hle,hle,iff_true]
    have hskip := decodeLength_snd_le (data.drop (decodeLength data).1)
    rw [Option.bind_eq_bind,Option.bind_some,slice_of_le (by omega) (Nat.min_le_right _ _)]
    exact ⟨_,rfl⟩
  · simp only [dropAt_eq_none hlt]
    simp [Nat.not_le.mpr hlt]

theorem exists_readUtf16String (data : Bytes) : ∃ s, readUtf16String data = some s := by
  rw [readUtf16String]
  split_ifs with h
  · exact ⟨_,rfl⟩
  · obtain ⟨len,hlen⟩ := exists_le16At (by omega : 0+2 ≤ data.length)
    rw [hlen,Option.bind_eq_bind,Option.bind_some,slice_of_le (by omega) (Nat.min_le_right _ _)]
    exact ⟨_,rfl⟩

theorem exists_readString_iff : (∃ r, readString chunk utf8 s = some r) ↔ (utf8 → StringFits chunk s) := by
  unfold readString StringFits
  obtain hge | hlt := Nat.lt_or_ge s chunk.length
  · rw [if_neg (Nat.not_le.mpr hge),dropAt_of_le hge.le,Option.bind_eq_bind,Option.bind_some]
    cases utf8 with
    | false => simpa using exists_readUtf16String (chunk.drop s)
    | true =>
      have hne : chunk.drop s ≠ [] := by simpa using hge
      simp only [if_true,exists_readUtf8String_iff hne,List.length_drop,true_imp_iff]
      tauto
  · rw [if_pos hlt]
    simp [Nat.not_lt.mpr hlt]

theorem exists_readPool_iff : (∃ l, readPool chunk utf8 stringsStart count i = some l) ↔
      (utf8 → ∀ j so, i ≤ j → j < i+count → 28+j*4+4 ≤ chunk.length → le32At chunk (28+j*4) = some so →
        StringFits chunk (stringsStart+so)) := by
  induction count generalizing i with
  | zero =>
    simp only [readPool,Option.some.injEq,exists_eq',true_iff]
    intro _ j so hij hj
    omega
  | succ count ih =>
    rw [readPool]
    split_ifs with hout
    · simp only [Option.some.injEq,exists_eq',true_iff]
      intro _ j so hij _ hj
      omega
    · obtain ⟨so,hso⟩ := exists_le32At (by omega : 28+i*4+4 ≤ chunk.length)
      have hstep : (∃ l, (do
            let string ← readString chunk utf8 (stringsStart+so)
            let strings ← readPool chunk utf8 stringsStart count (i+1)
            return string::strings) = some l) ↔
          (∃ r, readString chunk utf8 (stringsStart+so) = some r) ∧
            ∃ l, readPool chunk utf8 stringsStart count (i+1) = some l := by
        cases readString chunk utf8 (stringsStart+so) with
        | none => simp
        | some r => cases readPool chunk utf8 stringsStart count (i+1) <;> simp
      rw [hso,Option.bind_eq_bind,Option.bind_some,hstep,exists_readString_iff,ih,← imp_and]
      refine imp_congr_right ?_
      intro _
      constructor
      · rintro ⟨hfirst,hrest⟩ j so' hij hj hlen hso'
        obtain rfl | hij := Nat.eq_or_lt_of_le hij
        · obtain rfl := Option.some.inj (hso.symm.trans hso')
          exact hfirst
        · exact hrest j so' hij (by omega) hlen hso'
      · intro h
        refine ⟨h i so le_rfl (by omega) (by omega) hso,?_⟩
        intro j so' hij hj
        exact h j so' (by omega) (by omega)

theorem exists_parseStringPool_iff : (∃ r, parseStringPool limit chunk = some r) ↔ PoolFits limit chunk := by
  unfold parseStringPool PoolFits
  split_ifs with hsmall
  · simp only [Option.some.injEq,exists_eq',true_iff]
    intro count flags stringsStart hlen
    omega
  · obtain ⟨count,hcount⟩ := exists_le32At (by omega : 8+4 ≤ chunk.length)
    obtain ⟨flags,hflags⟩ := exists_le32At (by omega : 16+4 ≤ chunk.length)
    obtain ⟨stringsStart,hstart⟩ := exists_le32At (by omega : 20+4 ≤ chunk.length)
    simp only [hcount,hflags,hstart,Option.bind_eq_bind,Option.bind_some]
    split_ifs with hlimit
    · simp only [exists_false,false_iff]
      intro h
      exact absurd (h (by omega) rfl rfl rfl).1 (by omega)
    have hpool : (∃ r, ((readPool chunk (isUtf8Pool flags) stringsStart count 0).bind fun strings =>
          pure (.ok strings : Except String (List Bytes))) = some r) ↔
        ∃ l, readPool chunk (isUtf8Pool flags) stringsStart count 0 = some l := by
      cases readPool chunk (isUtf8Pool flags) stringsStart count 0 <;> simp
    rw [hpool,exists_readPool_iff]
    constructor
    · rintro h _ _ _ - ⟨⟩ ⟨⟩ ⟨⟩
      exact ⟨by omega,fun hutf8 i so hi => h hutf8 i so (Nat.zero_le i) (by omega)⟩
    · intro h hutf8 j so _ hj
      exact (h (by omega) rfl rfl rfl).2 hutf8 j so (by omega)

theorem parseStringPool_ok (h : parseStringPool limit chunk = some (.ok strings)) : 28 ≤ chunk.length := by
  unfold parseStringPool at h
  split_ifs at h with hsmall
  · cases h
  · omega

theorem parseStringPool_error (h : parseStringPool limit chunk = some (.error e)) : chunk.length < 28 := by
  unfold parseStringPool at h
  split_ifs at h with hsmall
  · exact hsmall
  obtain ⟨count,-,h⟩ := Option.bind_eq_some_iff.mp h
  obtain ⟨flags,-,h⟩ := Option.bind_eq_some_iff.mp h
  obtain ⟨stringsStart,-,h⟩ := Option.bind_eq_some_iff.mp h
  split_ifs at h
  obtain ⟨strings,-,h⟩ := Option.bind_eq_some_iff.mp h
  cases h

theorem exists_readAttributes (chunk : Bytes) (resourceMap : List ℕ) (hsize : 20 ≤ attributeSize) (count a : ℕ) :
    ∃ l, readAttributes chunk attributeSize resourceMap count a = some l := by
  induction count generalizing a with
  | zero => exact ⟨[],rfl⟩
  | succ count ih =>
    rw [readAttributes]
    split_ifs with hout
    · exact ⟨[],rfl⟩
    obtain ⟨nameIdx,hname⟩ := exists_le32At (by omega : a+4+4 ≤ chunk.length)
    obtain ⟨stringIndex,hstring⟩ := exists_le32At (by omega : a+8+4 ≤ chunk.length)
    obtain ⟨dataType,htype⟩ := exists_getElem? (by omega : a+15 < chunk.length)
    obtain ⟨value,hvalue⟩ := exists_le32At (by omega : a+16+4 ≤ chunk.length)
    obtain ⟨rest,hrest⟩ := ih (a+attributeSize)
    rw [hname,hstring,htype,hvalue,hrest]
    exact ⟨_,rfl⟩

/-- The reading of an element ends with an error or gives the element, and does not panic. -/
theorem startElement_cases (chunk : Bytes) (header : ℕ) (resourceMap : List ℕ) :
    ((∃ node, StartElement.parse chunk header resourceMap = some (.ok node)) ∧ header+20 ≤ chunk.length ∧
      ∀ attributeSize, le16At chunk (header+10) = some attributeSize → 20 ≤ attributeSize) ∨
    ((∃ e, StartElement.parse chunk header resourceMap = some (.error e)) ∧ ¬ (header+20 ≤ chunk.length ∧
      ∀ attributeSize, le16At chunk (header+10) = some attributeSize → 20 ≤ attributeSize)) := by
  unfold StartElement.parse
  split_ifs with hsmall
  · exact .inr ⟨⟨_,rfl⟩,fun h => absurd h.1 (by omega)⟩
  obtain ⟨nameIndex,hname⟩ := exists_le32At (by omega : header+4+4 ≤ chunk.length)
  obtain ⟨attributeStart,hstart⟩ := exists_le16At (by omega : header+8+2 ≤ chunk.length)
  obtain ⟨attributeSize,hsize⟩ := exists_le16At (by omega : header+10+2 ≤ chunk.length)
  obtain ⟨attributeCount,hcount⟩ := exists_le16At (by omega : header+12+2 ≤ chunk.length)
  simp only [hname,hstart,hsize,hcount,Option.bind_eq_bind,Option.bind_some]
  by_cases hless : attributeSize < 20
  · rw [if_pos hless]
    exact .inr ⟨⟨_,rfl⟩,fun h => absurd (h.2 attributeSize rfl) (by omega)⟩
  rw [if_neg hless]
  obtain ⟨attributes,hattributes⟩ :=
    exists_readAttributes chunk resourceMap (Nat.not_lt.mp hless) attributeCount (header+attributeStart)
  rw [hattributes]
  refine .inl ⟨⟨_,rfl⟩,by omega,?_⟩
  rintro _ ⟨⟩
  omega

/-- A chunk as it is cut out of the file. -/
structure Cut (data : Bytes) (pos : ℕ) (c : Chunk) : Prop where
  length : c.bytes.length = c.size
  header : c.header ≤ c.size
  size : c.size ≠ 0
  inside : pos+c.size ≤ data.length

theorem exists_chunkAt (data : Bytes) (pos : ℕ) : ∃ r, chunkAt data pos = some r := by
  unfold chunkAt
  split_ifs with h
  · obtain ⟨kind,hkind⟩ := exists_le16At (by omega : pos+2 ≤ data.length)
    obtain ⟨header,hheader⟩ := exists_le16At (by omega : pos+2+2 ≤ data.length)
    obtain ⟨size,hsize⟩ := exists_le32At (by omega : pos+4+4 ≤ data.length)
    simp only [hkind,hheader,hsize,Option.bind_eq_bind,Option.bind_some]
    split_ifs with hbad
    · exact ⟨_,rfl⟩
    · rw [slice_of_le (by omega) (by omega)]
      exact ⟨_,rfl⟩
  · exact ⟨_,rfl⟩

theorem cut_of_chunkAt (h : chunkAt data pos = some (some c)) : Cut data pos c := by
  unfold chunkAt at h
  split_ifs at h with hpos
  · obtain ⟨kind,-,h⟩ := Option.bind_eq_some_iff.mp h
    obtain ⟨header,-,h⟩ := Option.bind_eq_some_iff.mp h
    obtain ⟨size,-,h⟩ := Option.bind_eq_some_iff.mp h
    split_ifs at h with hbad
    · cases h
    obtain ⟨bytes,hbytes,h⟩ := Option.bind_eq_some_iff.mp h
    obtain rfl := Option.some.inj (Option.some.inj h)
    have hlength := length_of_slice hbytes
    rw [not_or,not_or] at hbad
    exact ⟨by rw [hlength,Nat.add_sub_cancel_left],Nat.not_lt.mp hbad.1,hbad.2.1,Nat.not_lt.mp hbad.2.2⟩
  · cases h

theorem exists_ids_iff (hc : Cut data pos c) :
    (∃ ids, (idOffsets c).mapM (le32At c.bytes) = some ids) ↔ 4 ∣ c.size-c.header := by
  have hlength := hc.length
  rw [exists_mapM_iff]
  constructor
  · intro h
    by_contra hdvd
    have hmem : c.header+4*((c.size-c.header)/4) ∈ idOffsets c := List.mem_range'.mpr ⟨(c.size-c.header)/4,by omega,rfl⟩
    obtain ⟨id,hid⟩ := h _ hmem
    have := le_of_le32At hid
    omega
  · intro hdvd i hi
    obtain ⟨j,hj,rfl⟩ := List.mem_range'.mp hi
    exact exists_le32At (by omega)

/-- A chunk is handled without a panic exactly if it is readable; the loop goes on behind it
exactly if it is accepted. -/
theorem handle_cases (hc : Cut data pos c) (st : State) : (handle limit c st = none ∧ ¬ Readable limit c) ∨ (Readable limit c ∧
      ((∃ e, handle limit c st = some (.error e)) ∧ ¬ Accepted c ∨
        (∃ st', handle limit c st = some (.ok st') ∧ st'.pos = st.pos) ∧ Accepted c)) := by
  have hpoolmap : RES_STRING_POOL ≠ RES_XML_RESOURCE_MAP := by decide
  have hpoolelement : RES_STRING_POOL ≠ RES_XML_START_ELEMENT := by decide
  have hmapelement : RES_XML_RESOURCE_MAP ≠ RES_XML_START_ELEMENT := by decide
  unfold handle Readable Accepted
  split_ifs with hpool hmap helement
  · simp only [hpool,hpoolmap,hpoolelement,true_imp_iff,false_imp_iff,and_true]
    rw [← exists_parseStringPool_iff]
    cases hparse : parseStringPool limit c.bytes with
    | none => exact .inl ⟨rfl,by simp⟩
    | some r =>
      refine .inr ⟨⟨r,rfl⟩,?_⟩
      cases r with
      | error e => exact .inl ⟨⟨e,rfl⟩,Nat.not_le.mpr (parseStringPool_error hparse)⟩
      | ok strings => exact .inr ⟨⟨_,rfl,rfl⟩,parseStringPool_ok hparse⟩
  · simp only [hmap,hpoolmap.symm,hmapelement,true_imp_iff,false_imp_iff,true_and]
    rw [← exists_ids_iff hc]
    cases (idOffsets c).mapM (le32At c.bytes) with
    | none => exact .inl ⟨rfl,by simp⟩
    | some ids => exact .inr ⟨⟨ids,rfl⟩,.inr ⟨⟨_,rfl,rfl⟩,trivial⟩⟩
  · simp only [helement,hpoolelement.symm,hmapelement.symm,true_imp_iff,false_imp_iff,true_and]
    refine .inr ?_
    obtain ⟨⟨node,hnode⟩,haccepted⟩ | ⟨⟨e,he⟩,hrefused⟩ := startElement_cases c.bytes c.header st.resourceMap
    · refine .inr ⟨?_,haccepted⟩
      rw [hnode,Option.bind_eq_bind,Option.bind_some]
      dsimp only
      split_ifs
      · exact ⟨st,rfl,rfl⟩
      · exact ⟨_,rfl,rfl⟩
    · refine .inl ⟨?_,hrefused⟩
      rw [he]
      exact ⟨e,rfl⟩
  · simp only [hpool,hmap,helement,false_imp_iff,true_and]
    exact .inr (.inr ⟨⟨st,rfl,rfl⟩,trivial⟩)

theorem body_of_end (h : chunkAt data st.pos = some none) : body limit data st = some (.error (finish st.manifest)) := by
  rw [body,h]
  rfl

theorem body_of_wrapper (h : chunkAt data st.pos = some (some c)) (hkind : c.kind = RES_XML_TYPE) :
    body limit data st = some (.ok { st with pos := st.pos+c.header }) := by
  rw [body,h]
  exact if_pos hkind

theorem body_of_chunk (h : chunkAt data st.pos = some (some c)) (hkind : c.kind ≠ RES_XML_TYPE) :
    body limit data st = (handle limit c { st with pos := st.pos+c.size }).map fun r => r.mapError .error := by
  rw [body,h,Option.bind_eq_bind,Option.bind_some]
  dsimp only
  rw [if_neg hkind]
  cases handle limit c { st with pos := st.pos+c.size } with
  | none => rfl
  | some r => cases r <;> rfl

theorem body_cases (st : State) (h : chunkAt data st.pos = some (some c)) (hkind : c.kind ≠ RES_XML_TYPE) :
    (body limit data st = none ∧ ¬ Readable limit c) ∨ (Readable limit c ∧
      ((∃ r, body limit data st = some (.error r)) ∧ ¬ Accepted c ∨
        (∃ st', body limit data st = some (.ok st') ∧ st'.pos = st.pos+c.size) ∧ Accepted c)) := by
  rw [body_of_chunk h hkind]
  obtain ⟨hnone,hbad⟩ | ⟨hreadable,hcases⟩ := handle_cases (cut_of_chunkAt h) { st with pos := st.pos+c.size }
  · exact .inl ⟨by rw [hnone]; rfl,hbad⟩
  refine .inr ⟨hreadable,?_⟩
  obtain ⟨⟨e,he⟩,hrefused⟩ | ⟨⟨st',hst',hpos⟩,haccepted⟩ := hcases
  · exact .inl ⟨⟨.error e,by rw [he]; rfl⟩,hrefused⟩
  · exact .inr ⟨⟨st',by rw [hst']; rfl,hpos⟩,haccepted⟩

theorem body_ok (h : body limit data st = some (.ok st')) : ∃ c, chunkAt data st.pos = some (some c) ∧
    (c.kind = RES_XML_TYPE ∧ st' = { st with pos := st.pos+c.header } ∨
      c.kind ≠ RES_XML_TYPE ∧ Accepted c ∧ st'.pos = st.pos+c.size) := by
  obtain ⟨r,hr⟩ := exists_chunkAt data st.pos
  cases r with
  | none =>
    rw [body_of_end hr] at h
    cases h
  | some c =>
    refine ⟨c,hr,?_⟩
    by_cases hkind : c.kind = RES_XML_TYPE
    · rw [body_of_wrapper hr hkind] at h
      cases h
      exact .inl ⟨hkind,rfl⟩
    · obtain ⟨hnone,-⟩ | ⟨-,⟨⟨r,hr'⟩,-⟩ | ⟨⟨st'',hst'',hpos⟩,haccepted⟩⟩ := body_cases st hr hkind
      · cases hnone.symm.trans h
      · cases hr'.symm.trans h
      · cases hst''.symm.trans h
        exact .inr ⟨hkind,haccepted,hpos⟩

/-- Every round but that at a wrapper with an empty header makes what is left of the file shorter. -/
theorem body_shortens (st st' : State) (h : body limit data st = some (.ok st')) :
    data.length-st'.pos < data.length-st.pos ∨ st' = st := by
  obtain ⟨c,hc,⟨-,rfl⟩ | ⟨-,-,hpos⟩⟩ := body_ok h
  · have hcut := cut_of_chunkAt hc
    have hinside := hcut.inside
    have hsize := hcut.size
    obtain hzero | hpos := Nat.eq_zero_or_pos c.header
    · exact .inr (by rw [hzero,Nat.add_zero])
    · left
      dsimp only
      omega
  · have hcut := cut_of_chunkAt hc
    have hinside := hcut.inside
    have hsize := hcut.size
    left
    omega

theorem walk_of_reached (h : Reached (body limit data) start st) : Walk data st.pos := by
  induction h with
  | start => exact .start
  | next _ hbody ih =>
    obtain ⟨c,hc,⟨hkind,rfl⟩ | ⟨hkind,haccepted,hpos⟩⟩ := body_ok hbody
    · exact .inner ih hc hkind
    · rw [hpos]
      exact .next ih hc hkind haccepted

theorem reached_of_walk (hok : ∀ st, Reached (body limit data) start st → body limit data st ≠ none)
    (h : Walk data pos) : ∃ st, Reached (body limit data) start st ∧ st.pos = pos := by
  induction h with
  | start => exact ⟨start,.start,rfl⟩
  | inner _ hc hkind ih =>
    obtain ⟨st,hreach,rfl⟩ := ih
    exact ⟨_,hreach.next (body_of_wrapper hc hkind),rfl⟩
  | next _ hc hkind haccepted ih =>
    obtain ⟨st,hreach,rfl⟩ := ih
    obtain ⟨hnone,-⟩ | ⟨-,⟨-,hrefused⟩ | ⟨⟨st',hst',hpos⟩,-⟩⟩ := body_cases st hc hkind
    · exact absurd hnone (hok st hreach)
    · exact absurd haccepted hrefused
    · exact ⟨st',hreach.next hst',hpos⟩

theorem parse_returns_iff (limit : ℕ) (data : Bytes) : Leaves (body limit data) start ↔ Tame limit data := by
  rw [leaves_iff (fun st st' => body_shortens st st')]
  constructor
  · intro h pos c hwalk hc
    obtain ⟨st,hreach,rfl⟩ := reached_of_walk (fun st hst => (h st hst).1) hwalk
    obtain ⟨hpanic,hstill⟩ := h st hreach
    constructor
    · intro hkind hzero
      rw [body_of_wrapper hc hkind,hzero] at hstill
      exact hstill rfl
    · by_cases hkind : c.kind = RES_XML_TYPE
      · constructor
        · intro hpool
          exact absurd (hkind.symm.trans hpool) (by decide)
        · intro hmap
          exact absurd (hkind.symm.trans hmap) (by decide)
      · obtain ⟨hnone,-⟩ | ⟨hreadable,-⟩ := body_cases st hc hkind
        · exact absurd hnone hpanic
        · exact hreadable
  · intro htame st hreach
    have hwalk := walk_of_reached hreach
    constructor
    · intro hnone
      obtain ⟨r,hr⟩ := exists_chunkAt data st.pos
      cases r with
      | none => cases (body_of_end hr).symm.trans hnone
      | some c =>
        by_cases hkind : c.kind = RES_XML_TYPE
        · cases (body_of_wrapper hr hkind).symm.trans hnone
        obtain ⟨-,hbad⟩ | ⟨-,⟨⟨r,hr'⟩,-⟩ | ⟨⟨st',hst',-⟩,-⟩⟩ := body_cases st hr hkind
        · exact hbad (htame hwalk hr).2
        · cases hr'.symm.trans hnone
        · cases hst'.symm.trans hnone
    · intro hstill
      obtain ⟨c,hc,⟨hkind,hst⟩ | ⟨-,-,hpos⟩⟩ := body_ok hstill
      · have hpos := congrArg State.pos hst
        exact (htame hwalk hc).1 hkind (by simpa using hpos)
      · have := (cut_of_chunkAt hc).size
        omega

end

/-- The chunks of the table that are looked at, with so many rounds to go. -/
inductive TableWalk (data : Bytes) : ℕ → ℕ → Prop
  | start {tableSize : ℕ} (hlength : 12 ≤ data.length) (h : le32At data 4 = some tableSize) :
      TableWalk data 4 (max (min tableSize data.length) 12)
  | next {rounds pos : ℕ} {c : Chunk} (h : TableWalk data (rounds+1) pos) (hc : tableChunkAt data pos = some (some c))
      (hname : nameIn c = some none) (hsize : c.size ≠ 0) : TableWalk data rounds (pos+c.size)

/-- A package chunk that is looked at does not end within 128 bytes behind the first half of its name. -/
def TableTame (data : Bytes) : Prop :=
  ∀ {rounds pos : ℕ} {c : Chunk}, TableWalk data (rounds+1) pos → tableChunkAt data pos = some (some c) →
    c.kind = 0x0200 → c.bytes.length < c.header+132 ∨ c.header+260 ≤ c.bytes.length

section

variable {rounds : ℕ}

theorem exists_nameIn_iff : (∃ r, nameIn c = some r) ↔
    (c.kind = 0x0200 → c.bytes.length < c.header+132 ∨ c.header+260 ≤ c.bytes.length) := by
  unfold nameIn packageNameFromPackageChunk
  by_cases hkind : c.kind = 0x0200
  · simp only [hkind,if_true,true_imp_iff]
    by_cases hsmall : c.bytes.length < c.header+132
    · simp [hsmall]
    by_cases hblob : c.header+260 ≤ c.bytes.length
    · rw [slice_of_le (by omega) (by omega)]
      simp only [hblob,or_true,iff_true,Option.bind_eq_bind,Option.bind_some]
      split_ifs <;> exact ⟨_,rfl⟩
    · rw [(slice_eq_none_iff (by omega)).mpr (by omega)]
      simp only [hsmall,hblob,or_self,iff_false]
      rintro ⟨r,hr⟩
      cases hr
  · simp [hkind]

theorem exists_tableChunkAt (data : Bytes) (pos : ℕ) : ∃ r, tableChunkAt data pos = some r := by
  unfold tableChunkAt
  split_ifs with h
  · exact ⟨_,rfl⟩
  obtain ⟨kind,hkind⟩ := exists_le16At (by omega : pos+2 ≤ data.length)
  obtain ⟨hdr,hhdr⟩ := exists_le16At (by omega : pos+2+2 ≤ data.length)
  obtain ⟨size,hsize⟩ := exists_le32At (by omega : pos+4+4 ≤ data.length)
  rw [hkind,hhdr,hsize]
  simp only [Option.bind_eq_bind,Option.bind_some]
  rw [slice_of_le (by omega) (Nat.min_le_right _ _)]
  exact ⟨_,rfl⟩

theorem exists_arscLoop_succ_iff : (∃ r, arscLoop data (rounds+1) pos = some r) ↔
    ∀ c, tableChunkAt data pos = some (some c) → (∃ r, nameIn c = some r) ∧
      (nameIn c = some none → c.size ≠ 0 → ∃ r, arscLoop data rounds (pos+c.size) = some r) := by
  obtain ⟨r,hr⟩ := exists_tableChunkAt data pos
  rw [arscLoop,hr]
  cases r with
  | none => simp
  | some c =>
    simp only [Option.bind_eq_bind,Option.bind_some,Option.some.injEq,forall_eq']
    cases hname : nameIn c with
    | none => simp
    | some name =>
      cases name with
      | some name => simp
      | none =>
        by_cases hsize : c.size = 0
        · simp [hsize]
        · simp [hsize]

theorem TableWalk.goes_on (h : TableWalk data rounds pos) (hok : ∃ r, packageNameFromArsc data = some r) :
    ∃ r, arscLoop data rounds pos = some r := by
  induction h with
  | start hlength h =>
    rw [packageNameFromArsc,if_pos hlength,h] at hok
    exact hok
  | next _ hc hname hsize ih => exact (exists_arscLoop_succ_iff.mp ih _ hc).2 hname hsize

theorem arsc_returns_iff (data : Bytes) : (∃ r, packageNameFromArsc data = some r) ↔ TableTame data := by
  constructor
  · intro hok rounds pos c hwalk hc
    exact exists_nameIn_iff.mp (exists_arscLoop_succ_iff.mp (hwalk.goes_on hok) c hc).1
  intro htame
  have hgo : ∀ rounds pos, TableWalk data rounds pos → ∃ r, arscLoop data rounds pos = some r := by
    intro rounds
    induction rounds with
    | zero => exact fun pos _ => ⟨none,rfl⟩
    | succ rounds ih =>
      intro pos hwalk
      rw [exists_arscLoop_succ_iff]
      intro c hc
      exact ⟨exists_nameIn_iff.mpr (htame hwalk hc),fun hname hsize => ih _ (.next hwalk hc hname hsize)⟩
  unfold packageNameFromArsc
  split_ifs with hlength
  · obtain ⟨tableSize,hsize⟩ := exists_le32At (by omega : 4+4 ≤ data.length)
    rw [hsize]
    exact hgo 4 _ (.start hlength hsize)
  · exact ⟨none,rfl⟩

end

/-- For every file: `parse` returns a manifest or an error exactly if the chunks it comes to are readable and
no wrapper has an empty header, and `package_name_from_arsc` returns exactly if no package chunk it
comes to is too short for the name it is taken to hold. -/
theorem returns_iff_tame (limit : ℕ) (data : Bytes) :
    ((∃ rounds result, parse limit rounds data = some (some result)) ↔ Tame limit data) ∧
    ((∃ result, packageNameFromArsc data = some result) ↔ TableTame data) :=
  ⟨parse_returns_iff limit data,arsc_returns_iff data⟩

/-- A wrapper whose header is said to take no bytes. -/
def standstill : Bytes := [3,0,0,0,8,0,0,0]

/-- A resource map of nine bytes. -/
def oddMap : Bytes := [0x80,1,8,0,9,0,0,0,0]

/-- A UTF-8 pool with one string, of which the first length is 100. -/
def longString : Bytes :=
  [1,0,28,0,39,0,0,0, 1,0,0,0, 0,0,0,0, 0,1,0,0, 32,0,0,0, 0,0,0,0, 0,0,0,0, 100,5,104,101,108,108,111]

/-- A pool that is said to have as many strings as there can be. -/
def hugePool : Bytes := [1,0,28,0,28,0,0,0, 255,255,255,255, 0,0,0,0, 0,0,0,0, 0,0,0,0, 0,0,0,0]

/-- A table with a package chunk of 200 bytes. -/
def shortPackage : Bytes := [2,0,12,0,12,0,0,0,1,0,0,0, 0,2,8,0,200,0,0,0]++List.replicate 192 0

theorem files_not_read : (∀ limit rounds, parse limit rounds standstill = none) ∧
    (∀ limit, parse limit 1 oddMap = some none) ∧ (∀ limit, parse limit 1 longString = some none) ∧
    (∀ limit < 2^32-1, parse limit 1 hugePool = some none) ∧ packageNameFromArsc shortPackage = none := by
  have hpool : ∀ {limit : ℕ} {data : Bytes} {c : Chunk}, chunkAt data start.pos = some (some c) →
      c.kind = RES_STRING_POOL → parseStringPool limit c.bytes = none → parse limit 1 data = some none := by
    intro limit data c hc hkind hparse
    have hbody : body limit data start = none := by
      rw [body_of_chunk hc (by rw [hkind]; decide),handle,if_pos hkind,hparse]
      rfl
    rw [parse,run,hbody]
  refine ⟨fun limit => ?_,fun limit => rfl,fun limit => ?_,fun limit hlimit => ?_,by decide +kernel⟩
  · have hchunk : chunkAt standstill start.pos = some (some ⟨3,0,8,standstill⟩) := by decide +kernel
    exact run_of_standstill (body_of_wrapper hchunk rfl)
  · refine hpool (c:=⟨1,28,39,longString⟩) (by decide +kernel) rfl ?_
    show (if limit < 1 then none else _) = _
    split_ifs
    · rfl
    · decide +kernel
  · refine hpool (c:=⟨1,28,28,hugePool⟩) (by decide +kernel) rfl ?_
    exact if_pos hlimit

end AdbShare.Manifest
