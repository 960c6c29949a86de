import AdbShare.Manifest
import AdbShare.TextCodes

/-! What is read from the compiled resources of an APK. A string pool is laid out with the place of
each entry before the entries. In a UTF-8 pool the reader steps over the first length as if it
were that many bytes, so what it takes for the second length and the text need not be those of
the string. -/
namespace AdbShare.Resources

open Manifest Slices TextCodes TextOffsets List Option UInt8

/-- Where each entry starts, from the first on. -/
def offsetsFrom : ℕ → List Bytes → List ℕ
  | _, [] => []
  | o, e::es => o::offsetsFrom (o+e.length) es

def stringsStart (entries : List Bytes) : ℕ := 28+4*entries.length

def poolSize (entries : List Bytes) (pad : Bytes) : ℕ := stringsStart entries+(entries.flatten.length+pad.length)

/-- The header of a pool without styles. -/
def poolHeader (flags : ℕ) (entries : List Bytes) (pad : Bytes) : Bytes :=
  toLe 2 RES_STRING_POOL++(toLe 2 28++(toLe 4 (poolSize entries pad)++(toLe 4 entries.length++(toLe 4 0++(toLe 4 flags++
    (toLe 4 (stringsStart entries)++toLe 4 0))))))

def pool (flags : ℕ) (entries : List Bytes) (pad : Bytes) : Bytes :=
  poolHeader flags entries pad++((offsetsFrom 0 entries).flatMap (toLe 4)++(entries.flatten++pad))

/-- What is read where the rest of the pool is this. -/
def readAt (utf8 : Bool) (data : Bytes) : Option Bytes :=
  if data = [] then some [] else if utf8 then readUtf8String data else readUtf16String data

/-- Each string is read at the start of its entry. -/
def ReadsAll (utf8 : Bool) (pad : Bytes) : List Bytes → List Bytes → Prop
  | [], [] => True
  | e::es, s::ss => readAt utf8 (e++(es.flatten++pad)) = some s ∧ ReadsAll utf8 pad es ss
  | _, _ => False

section

variable {chunk front pad rest : Bytes} {utf8 : Bool} {entries ss : List Bytes} {flags start i o limit : ℕ} {os : List ℕ}

@[simp] theorem offsetsFrom_length (o : ℕ) (es : List Bytes) : (offsetsFrom o es).length = es.length := by
  induction es generalizing o with
  | nil => rfl
  | cons e es ih => rw [offsetsFrom,length_cons,ih,length_cons]

theorem offsetsFrom_le : ∀ x ∈ offsetsFrom o entries, x ≤ o+entries.flatten.length := by
  induction entries generalizing o with
  | nil => nofun
  | cons e es ih =>
    intro x hx
    rw [flatten_cons,length_append]
    obtain rfl | hx := mem_cons.mp hx
    · omega
    · have := ih x hx
      omega

theorem length_table (os : List ℕ) : (os.flatMap (toLe 4)).length = 4*os.length := by
  rw [length_flatMap,map_congr_left fun o _ => toLe_length 4 o]
  simp [mul_comm]

theorem pool_length (flags : ℕ) (entries : List Bytes) (pad : Bytes) :
    (pool flags entries pad).length = poolSize entries pad := by
  simp only [pool,poolHeader,poolSize,stringsStart,length_append,toLe_length,length_table,offsetsFrom_length]
  omega

theorem readString_eq (chunk : Bytes) (utf8 : Bool) (s : ℕ) : readString chunk utf8 s = readAt utf8 (chunk.drop s) := by
  unfold readString readAt
  by_cases hs : s ≥ chunk.length
  · rw [if_pos hs,if_pos (drop_eq_nil_of_le hs)]
  · rw [if_neg hs,if_neg (by rwa [drop_eq_nil_iff]),dropAt_of_le (by omega)]
    rfl

/-- The loop over a table of offsets. -/
theorem readPool_iff (hos : ∀ o ∈ os, o < 2^32) (hchunk : chunk = front++(os.flatMap (toLe 4)++rest))
    (hfront : front.length = 28+i*4) : readPool chunk utf8 start os.length i = some ss ↔
      List.Forall₂ (fun o s => readAt utf8 (chunk.drop (start+o)) = some s) os ss := by
  induction os generalizing i ss front with
  | nil => rw [length_nil,readPool,List.forall₂_nil_left_iff,some.injEq,eq_comm]
  | cons o os ih =>
    rw [forall_mem_cons] at hos
    have hsplit : chunk = front++(toLe 4 o++(os.flatMap (toLe 4)++rest)) := by
      rw [hchunk,flatMap_cons,append_assoc]
    have hoff : le32At chunk (28+i*4) = some o := by
      rw [hsplit,le32At_append hfront.le,hfront,Nat.sub_self,le32At_toLe hos.1]
    have hnext : chunk = (front++toLe 4 o)++(os.flatMap (toLe 4)++rest) := by rw [hsplit,append_assoc]
    have hlen : (front++toLe 4 o).length = 28+(i+1)*4 := by
      rw [length_append,hfront,toLe_length]
      omega
    have hfits : ¬ 28+i*4+4 > chunk.length := Nat.not_lt.mpr (le_of_le32At hoff)
    rw [length_cons,readPool,if_neg hfits,hoff,bind_eq_bind,bind_some,readString_eq]
    cases ss with
    | nil => simp [bind_eq_some_iff]
    | cons s ss =>
      rw [List.forall₂_cons,← ih hos.2 hnext hlen]
      simp [bind_eq_some_iff]

theorem readsAll_iff (hchunk : chunk = front++(entries.flatten++pad)) (hfront : front.length = start+o) :
    List.Forall₂ (fun o s => readAt utf8 (chunk.drop (start+o)) = some s) (offsetsFrom o entries) ss ↔
      ReadsAll utf8 pad entries ss := by
  induction entries generalizing o ss front with
  | nil => cases ss <;> simp [offsetsFrom,ReadsAll]
  | cons e es ih =>
    have hsplit : chunk = (front++e)++(es.flatten++pad) := by
      rw [hchunk,flatten_cons]
      simp only [append_assoc]
    have hdrop : chunk.drop (start+o) = e++(es.flatten++pad) := by
      rw [hsplit,append_assoc,drop_left' hfront]
    cases ss with
    | nil => simp [offsetsFrom,ReadsAll]
    | cons s ss => rw [offsetsFrom,List.forall₂_cons,ih hsplit (by rw [length_append,hfront]; omega),hdrop,ReadsAll]

theorem parseStringPool_pool_iff (hsize : poolSize entries pad < 2^32) (hflags : flags < 2^32)
    (hlimit : entries.length ≤ limit) : parseStringPool limit (pool flags entries pad) = some (.ok ss) ↔
      ReadsAll (isUtf8Pool flags) pad entries ss := by
  have hlength := pool_length flags entries pad
  have hstart : 28+4*entries.length+(entries.flatten.length+pad.length) = poolSize entries pad := rfl
  have h8 : le32At (pool flags entries pad) 8 = some entries.length := by
    simp only [pool,poolHeader,append_assoc]
    rw [le32At_skip (by norm_num),le32At_skip (by norm_num),le32At_skip (by norm_num)]
    exact le32At_toLe (by omega)
  have h16 : le32At (pool flags entries pad) 16 = some flags := by
    simp only [pool,poolHeader,append_assoc]
    rw [le32At_skip (by norm_num),le32At_skip (by norm_num),le32At_skip (by norm_num),le32At_skip (by norm_num),
      le32At_skip (by norm_num)]
    exact le32At_toLe hflags
  have h20 : le32At (pool flags entries pad) 20 = some (stringsStart entries) := by
    simp only [pool,poolHeader,append_assoc]
    rw [le32At_skip (by norm_num),le32At_skip (by norm_num),le32At_skip (by norm_num),le32At_skip (by norm_num),
      le32At_skip (by norm_num),le32At_skip (by norm_num)]
    exact le32At_toLe (by rw [stringsStart]; omega)
  have hread : readPool (pool flags entries pad) (isUtf8Pool flags) (stringsStart entries) entries.length 0 = some ss ↔
      ReadsAll (isUtf8Pool flags) pad entries ss := by
    have hhead : (poolHeader flags entries pad).length = 28 := by simp [poolHeader,toLe_length]
    have hsplit : pool flags entries pad =
        (poolHeader flags entries pad++(offsetsFrom 0 entries).flatMap (toLe 4))++(entries.flatten++pad) :=
      (append_assoc ..).symm
    have hplace : (poolHeader flags entries pad++(offsetsFrom 0 entries).flatMap (toLe 4)).length =
        stringsStart entries+0 := by
      simp only [length_append,hhead,length_table,offsetsFrom_length,stringsStart]
      rfl
    rw [← readsAll_iff hsplit hplace,← offsetsFrom_length 0 entries]
    refine readPool_iff (fun x hx => ?_) rfl hhead
    have := offsetsFrom_le x hx
    omega
  rw [parseStringPool,if_neg (by omega),h8,h16,h20,← hread]
  simp [bind_eq_some_iff,Nat.not_lt.mpr hlimit]

end

/-- A length in a UTF-8 pool: one byte, or two with the high seven bits first. -/
def lengthBytes (n : ℕ) : Bytes :=
  if n < 0x80 then [UInt8.ofNat n] else [UInt8.ofNat (0x80+n/256),UInt8.ofNat (n%256)]

def utf8Entry (cs : List Char) : Bytes :=
  lengthBytes (utf16Len cs)++(lengthBytes (utf8 cs).length++(utf8 cs++[0]))

section

variable {data tail rest pad : Bytes} {cs : List Char} {n limit : ℕ} {strings : List (List Char)}

theorem decodeLength_small (hn : n < 0x80) (data : Bytes) : decodeLength (ofNat n::data) = (n,1) := by
  have hsmall : ∀ k : Fin 128, ofNat k &&& 0x80 = 0 ∧ (ofNat k &&& 0x7f).toNat = k := by decide
  obtain ⟨hzero,hvalue⟩ := hsmall ⟨n,hn⟩
  cases data with
  | nil => rw [decodeLength,hvalue]
  | cons b bs => rw [decodeLength,if_neg (not_not.mpr hzero),hvalue]

/-- The text is found if as many bytes as the first length says lead to the second. -/
theorem readUtf8String_text (hn : n < 0x80) (hm : (utf8 cs).length < 0x80)
    (hdrop : (ofNat n::data).drop n = ofNat (utf8 cs).length::(utf8 cs++tail)) :
    readUtf8String (ofNat n::data) = some (utf8 cs) := by
  have hle : n ≤ (ofNat n::data).length := by
    by_contra hlt
    rw [drop_eq_nil_of_le (by omega)] at hdrop
    cases hdrop
  have hmin : min (1+(utf8 cs).length) (ofNat (utf8 cs).length::(utf8 cs++tail)).length = 1+(utf8 cs).length := by
    rw [length_cons,length_append]
    omega
  rw [readUtf8String,if_neg (cons_ne_nil _ _),decodeLength_small hn]
  simp only [dropAt_of_le hle,hdrop,decodeLength_small hm,bind_eq_bind,bind_some,hmin]
  rw [slice_of_le (by omega) (by rw [length_cons,length_append]; omega)]
  simp

theorem utf16Len_cons (c : Char) (cs : List Char) : utf16Len (c::cs) = utf16Size c+utf16Len cs := rfl

/-- The one byte of its first length is all that the reader steps over. -/
theorem readUtf8String_entry (h : utf16Len cs ≤ 1) (rest : Bytes) :
    readUtf8String (utf8Entry cs++rest) = some (utf8 cs) := by
  cases cs with
  | nil => exact readUtf8String_text (n:=0) (by omega) (show (utf8 []).length < 0x80 by decide) (rfl : _ = _::([]++0::0::rest))
  | cons c cs =>
    have hpos := utf16Size_pos c
    rw [utf16Len_cons] at h
    have hnil : cs = [] := by
      cases cs with
      | nil => rfl
      | cons d cs =>
        have := utf16Size_pos d
        rw [utf16Len_cons] at h
        omega
    subst hnil
    have hunits : utf16Len [c] = 1 := le_antisymm h hpos
    have hlen : (utf8 [c]).length ≤ 4 := by
      simpa [utf8,String.length_utf8EncodeChar] using Char.utf8Size_le_four c
    have hentry : utf8Entry [c]++rest = ofNat 1::(ofNat (utf8 [c]).length::(utf8 [c]++0::rest)) := by
      rw [utf8Entry,hunits,lengthBytes,lengthBytes,if_pos (by omega),if_pos (by omega)]
      simp
    rw [hentry]
    exact readUtf8String_text (by omega) (by omega) rfl

theorem readsAll_utf8 (h : ∀ cs ∈ strings, utf16Len cs ≤ 1) :
    ReadsAll true pad (strings.map utf8Entry) (strings.map utf8) := by
  induction strings with
  | nil => trivial
  | cons cs strings ih =>
    rw [forall_mem_cons] at h
    refine ⟨?_,ih h.2⟩
    rw [readAt,if_neg (by simp [utf8Entry]),if_pos rfl]
    exact readUtf8String_entry h.1 _

end

/-- A package of a resource table. -/
structure Package where
  id : ℕ
  name : Bytes
  typeStrings : ℕ
  lastPublicType : ℕ
  keyStrings : ℕ
  lastPublicKey : ℕ
  typeIdOffset : ℕ
  chunks : Bytes

/-- 128 units. -/
def nameField (name : Bytes) : Bytes := name.flatMap (fun b => [b,0])++List.replicate (256-2*name.length) 0

def Package.chunk (p : Package) : Bytes :=
  toLe 2 0x0200++(toLe 2 288++(toLe 4 (288+p.chunks.length)++(toLe 4 p.id++(nameField p.name++(toLe 4 p.typeStrings++
    (toLe 4 p.lastPublicType++(toLe 4 p.keyStrings++(toLe 4 p.lastPublicKey++(toLe 4 p.typeIdOffset++p.chunks)))))))))

/-- The global strings and then the packages. -/
def tableBody (pool : Bytes) (packages : List Package) : Bytes := pool++(packages.map Package.chunk).flatten

def table (pool : Bytes) (packages : List Package) : Bytes :=
  toLe 2 0x0002++(toLe 2 12++(toLe 4 (12+(tableBody pool packages).length)++(toLe 4 packages.length++tableBody pool packages)))

/-- The walk over the chunks starts behind the last of them, so in no table a package name is found. -/
theorem no_name_in_table (flags : ℕ) (entries : List Bytes) (pad : Bytes) (packages : List Package)
    (hsize : (table (pool flags entries pad) packages).length < 2^32) :
    packageNameFromArsc (table (pool flags entries pad) packages) = some none := by
  have hlength : (table (pool flags entries pad) packages).length =
      12+(tableBody (pool flags entries pad) packages).length := by
    simp only [table,length_append,toLe_length]
    omega
  have hfield : le32At (table (pool flags entries pad) packages) 4 =
      some (table (pool flags entries pad) packages).length := by
    rw [hlength,table,le32At_skip (by norm_num),le32At_skip (by norm_num)]
    exact le32At_toLe (by omega)
  have hstart : max (min (table (pool flags entries pad) packages).length
      (table (pool flags entries pad) packages).length) 12 = (table (pool flags entries pad) packages).length := by
    omega
  rw [packageNameFromArsc,if_pos (by omega),hfield,bind_eq_bind,bind_some,hstart,arscLoop,tableChunkAt,
    if_pos (by omega)]
  rfl

def exampleCom : Package := ⟨0x7f,ascii "example.com",288,0,288,0,0,[]⟩

theorem no_name_of_example : (table (pool 0 [] []) [exampleCom]).length = 328 ∧
    packageNameFromArsc (table (pool 0 [] []) [exampleCom]) = some none :=
  ⟨by decide +kernel,no_name_in_table 0 [] [] [exampleCom] (by decide +kernel)⟩

theorem first_package_unnamed : ∃ name package, 4 ≤ name.length ∧ name.length ≤ 127 ∧ name.all isNameByte = true ∧
    package.name = name ∧ packageNameFromArsc (table (pool 0 [] []) [package]) ≠ some (some name) :=
  ⟨exampleCom.name,exampleCom,by decide +kernel⟩

end AdbShare.Resources
