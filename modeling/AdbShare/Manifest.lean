import AdbShare.Rounds
import AdbShare.Slices

/-! Reading what an APK says about itself: the chunks of `AndroidManifest.xml` and the package name
in `resources.arsc`. All lengths and offsets come from the file. `none` stands for a panic, or for memory that is
not to be had: `limit` is for how many strings the allocator finds room at once. -/
namespace AdbShare.Manifest

open Slices Rounds

def ascii (s : String) : Bytes := s.toList.map fun c => UInt8.ofNat c.toNat

structure AxmlManifest where
  package : Bytes
  versionName : Option Bytes
  versionCode : Option ℕ
  minSdk : Option ℕ
  targetSdk : Option ℕ
  label : Option Bytes
  permissions : List Bytes
  deriving DecidableEq

def AxmlManifest.empty : AxmlManifest := ⟨[],none,none,none,none,none,[]⟩

def RES_STRING_POOL : ℕ := 0x0001
def RES_XML_TYPE : ℕ := 0x0003
def RES_XML_START_ELEMENT : ℕ := 0x0102
def RES_XML_RESOURCE_MAP : ℕ := 0x0180

def ATTR_VERSION_CODE : ℕ := 0x0101021b
def ATTR_PACKAGE : ℕ := 0x01010146
def ATTR_VERSION_NAME : ℕ := 0x0101021c
def ATTR_MIN_SDK : ℕ := 0x0101020c
def ATTR_TARGET_SDK : ℕ := 0x01010270
def ATTR_LABEL : ℕ := 0x01010001
def ATTR_PERMISSION_NAME : ℕ := 0x01010003

/-- The two-byte units of `as_chunks`, without a byte left over. -/
def units : Bytes → List ℕ
  | lo::hi::rest => (lo.toNat+256*hi.toNat)::units rest
  | _ => []

def REPLACEMENT : Char := Char.ofNat 0xFFFD

/-- `char::decode_utf16`, with a replacement for each unit that does not belong to a character. -/
def decodeUtf16 : List ℕ → List Char
  | [] => []
  | u::rest =>
    if u < 0xD800 ∨ 0xDFFF < u then Char.ofNat u::decodeUtf16 rest
    else if 0xDC00 ≤ u then REPLACEMENT::decodeUtf16 rest
    else match rest with
      | [] => [REPLACEMENT]
      | v::rest' =>
        if 0xDC00 ≤ v ∧ v ≤ 0xDFFF then Char.ofNat (0x10000+1024*(u-0xD800)+(v-0xDC00))::decodeUtf16 rest'
        else REPLACEMENT::decodeUtf16 (v::rest')

/-- `String::from_utf16_lossy`. -/
def fromUtf16Lossy (us : List ℕ) : Bytes := (decodeUtf16 us).flatMap String.utf8EncodeChar

/-- The length and how many bytes it takes. -/
def decodeLength : Bytes → ℕ × ℕ
  | [] => (0,0)
  | [b] => ((b &&& 0x7f).toNat,1)
  | b::c::_ =>
    if b &&& 0x80 ≠ 0 then (128*(c &&& 0x7f).toNat+(b &&& 0x7f).toNat,2) else ((b &&& 0x7f).toNat,1)

def readUtf8String (data : Bytes) : Option Bytes :=
  if data = [] then some []
  else do
    let (skip,_) := decodeLength data
    let rest ← dropAt data skip
    let (hlen,hskip) := decodeLength rest
    let bytes ← slice rest hskip (min (hskip+hlen) rest.length)
    return Utf8.fromUtf8Lossy bytes

def readUtf16String (data : Bytes) : Option Bytes :=
  if data.length < 2 then some []
  else do
    let len ← le16At data 0
    let bytes ← slice data 2 (min (2+len*2) data.length)
    return fromUtf16Lossy (units bytes)

/-- The string of the pool at this place. -/
def readString (chunk : Bytes) (utf8 : Bool) (s : ℕ) : Option Bytes :=
  if s ≥ chunk.length then some []
  else do
    let data ← dropAt chunk s
    if utf8 then readUtf8String data else readUtf16String data

/-- The loop over the offsets of the pool, from the `i`-th on. -/
def readPool (chunk : Bytes) (utf8 : Bool) (stringsStart : ℕ) : ℕ → ℕ → Option (List Bytes)
  | 0, _ => some []
  | count+1, i =>
    if 28+i*4+4 > chunk.length then some []
    else do
      let so ← le32At chunk (28+i*4)
      let string ← readString chunk utf8 (stringsStart+so)
      let strings ← readPool chunk utf8 stringsStart count (i+1)
      return string::strings

def isUtf8Pool (flags : ℕ) : Bool := flags &&& 0x100 != 0

def parseStringPool (limit : ℕ) (chunk : Bytes) : Option (Except String (List Bytes)) :=
  if chunk.length < 28 then some (.error "string pool too small")
  else do
    let count ← le32At chunk 8
    let flags ← le32At chunk 16
    let stringsStart ← le32At chunk 20
    -- `Vec::with_capacity(count)`
    if limit < count then none
    else do
      let strings ← readPool chunk (isUtf8Pool flags) stringsStart count 0
      return .ok strings

structure Attribute where
  id : ℕ
  nameIndex : ℕ
  stringIndex : ℕ
  intValue : Option ℕ

structure StartElement where
  nameIndex : Option ℕ
  nameString : Option Bytes
  attributes : List Attribute

/-- The loop over the attributes, from the offset `a` on. -/
def readAttributes (chunk : Bytes) (attributeSize : ℕ) (resourceMap : List ℕ) : ℕ → ℕ → Option (List Attribute)
  | 0, _ => some []
  | count+1, a =>
    if a+attributeSize > chunk.length then some []
    else do
      let nameIdx ← le32At chunk (a+4)
      let stringIndex ← le32At chunk (a+8)
      let dataType ← chunk[a+15]?
      let data ← le32At chunk (a+16)
      let id := resourceMap[nameIdx]?.getD 0
      let intValue := if dataType = 0x10 ∨ dataType = 0x11 ∨ dataType = 0x04 then some data else none
      let attributes ← readAttributes chunk attributeSize resourceMap count (a+attributeSize)
      return ⟨id,nameIdx,stringIndex,intValue⟩::attributes

def tooSmall (attributeSize : ℕ) : String :=
  "attribute entry claims size "++toString attributeSize++", smaller than the minimum 20"

def StartElement.parse (chunk : Bytes) (header : ℕ) (resourceMap : List ℕ) : Option (Except String StartElement) :=
  if chunk.length < header+20 then some (.error "start element chunk too small")
  else do
    let nameIndex ← le32At chunk (header+4)
    let attributeStart ← le16At chunk (header+8)
    let attributeSize ← le16At chunk (header+10)
    let attributeCount ← le16At chunk (header+12)
    if attributeSize < 20 then return .error (tooSmall attributeSize)
    else do
      let attributes ← readAttributes chunk attributeSize resourceMap attributeCount (header+attributeStart)
      return .ok ⟨some nameIndex,none,attributes⟩

def elementName (strings : List Bytes) (node : StartElement) : Option Bytes :=
  match node.nameIndex.bind fun i => strings[i]? with
  | some s => some s
  | none => node.nameString

def stringValue (strings : List Bytes) (attr : Attribute) : Bytes := strings[attr.stringIndex]?.getD []

def labelValue (strings : List Bytes) (attr : Attribute) : Bytes := stringValue strings attr

section

variable (strings : List Bytes)

def manifestAttribute (m : AxmlManifest) (a : Attribute) : AxmlManifest :=
  if a.id = ATTR_PACKAGE ∨ strings[a.nameIndex]? = some (ascii "package") then
    { m with package := stringValue strings a }
  else if a.id = ATTR_VERSION_CODE then
    match a.intValue with
    | some v => { m with versionCode := some v }
    | none => m
  else if a.id = ATTR_VERSION_NAME then { m with versionName := some (stringValue strings a) }
  else m

def usesSdkAttribute (m : AxmlManifest) (a : Attribute) : AxmlManifest :=
  if a.id = ATTR_MIN_SDK then { m with minSdk := a.intValue }
  else if a.id = ATTR_TARGET_SDK then { m with targetSdk := a.intValue }
  else m

def usesPermissionAttribute (m : AxmlManifest) (a : Attribute) : AxmlManifest :=
  if a.id = ATTR_PERMISSION_NAME then
    let name := stringValue strings a
    if name ≠ [] ∧ name ∉ m.permissions then { m with permissions := m.permissions++[name] } else m
  else m

def applicationAttribute (m : AxmlManifest) (a : Attribute) : AxmlManifest :=
  if a.id = ATTR_LABEL then
    let label := labelValue strings a
    if label ≠ [] then { m with label := some label } else m
  else m

/-- What an element adds to the manifest. -/
def readElement (node : StartElement) (m : AxmlManifest) : AxmlManifest :=
  let name := elementName strings node
  if name = some (ascii "manifest") then node.attributes.foldl (manifestAttribute strings) m
  else if name = some (ascii "uses-sdk") then node.attributes.foldl usesSdkAttribute m
  else if name = some (ascii "uses-permission") then node.attributes.foldl (usesPermissionAttribute strings) m
  else if name = some (ascii "application") then node.attributes.foldl (applicationAttribute strings) m
  else m

end

structure Chunk where
  kind : ℕ
  header : ℕ
  size : ℕ
  bytes : Bytes
  deriving DecidableEq

/-- The chunk at a position, unless the loop ends there. -/
def chunkAt (data : Bytes) (pos : ℕ) : Option (Option Chunk) :=
  if pos+8 ≤ data.length then do
    let kind ← le16At data pos
    let header ← le16At data (pos+2)
    let size ← le32At data (pos+4)
    if size < header ∨ size = 0 ∨ pos+size > data.length then return none
    else do
      let bytes ← slice data pos (pos+size)
      return some ⟨kind,header,size,bytes⟩
  else some none

structure State where
  pos : ℕ
  strings : List Bytes
  resourceMap : List ℕ
  manifest : AxmlManifest

/-- `(header..size).step_by(4)`. -/
def idOffsets (c : Chunk) : List ℕ := List.range' c.header ((c.size-c.header+3)/4) 4

/-- What is done with a chunk. -/
def handle (limit : ℕ) (c : Chunk) (st : State) : Option (Except String State) :=
  if c.kind = RES_STRING_POOL then do
    match ← parseStringPool limit c.bytes with
    | .error e => return .error e
    | .ok strings => return .ok { st with strings }
  else if c.kind = RES_XML_RESOURCE_MAP then do
    let ids ← (idOffsets c).mapM (le32At c.bytes)
    return .ok { st with resourceMap := st.resourceMap++ids }
  else if c.kind = RES_XML_START_ELEMENT then do
    match ← StartElement.parse c.bytes c.header st.resourceMap with
    | .error e => return .error e
    | .ok node =>
      if node.nameIndex = none ∧ node.nameString = none then return .ok st
      else return .ok { st with manifest := readElement st.strings node st.manifest }
  else some (.ok st)

/-- What is returned after the loop. -/
def finish (m : AxmlManifest) : Except String AxmlManifest :=
  if m.package = [] ∧ m.versionCode = none then
    .error "manifest has neither package nor versionCode; likely not an AXML file"
  else .ok m

/-- A round of the loop in `parse`. -/
def body (limit : ℕ) (data : Bytes) (st : State) : Option (Except (Except String AxmlManifest) State) := do
  match ← chunkAt data st.pos with
  | none => return .error (finish st.manifest)
  | some c =>
    if c.kind = RES_XML_TYPE then return .ok { st with pos := st.pos+c.header }
    else do
      match ← handle limit c { st with pos := st.pos+c.size } with
      | .error e => return .error (.error e)
      | .ok st => return .ok st

def start : State := ⟨0,[],[],.empty⟩

/-- `parse`, for so many rounds of its loop: none if they are used up, then none for a panic. -/
def parse (limit rounds : ℕ) (data : Bytes) : Option (Option (Except String AxmlManifest)) :=
  run (body limit data) rounds start

def isNameByte (b : UInt8) : Bool :=
  b == 46 || (48 ≤ b && b ≤ 57) || (65 ≤ b && b ≤ 90) || (97 ≤ b && b ≤ 122) || b == 95 || b == 45

/-- The test on UTF-16 units, of which only the low byte is looked at for letters and digits. -/
def isNameUnit (u : ℕ) : Bool :=
  let b := u%256
  u == 46 || (48 ≤ b && b ≤ 57) || (65 ≤ b && b ≤ 90) || (97 ≤ b && b ≤ 122) || u == 95 || u == 45

def packageNameFromPackageChunk (chunk : Bytes) (hdr : ℕ) : Option (Option Bytes) :=
  if chunk.length < hdr+132 then some none
  else do
    let blob ← slice chunk (hdr+4) (hdr+4+256)
    let utf16 := (units blob).takeWhile (· != 0)
    if utf16.length > 3 ∧ utf16.all isNameUnit then return some (fromUtf16Lossy utf16)
    else
      let bytes := blob.takeWhile (· != 0)
      if bytes.length > 3 ∧ bytes.all isNameByte then return some (Utf8.fromUtf8Lossy bytes)
      else return none

/-- The header of a chunk of the table and the chunk itself, cut off at the end of the file. -/
def tableChunkAt (data : Bytes) (pos : ℕ) : Option (Option Chunk) :=
  if pos+8 > data.length then some none
  else do
    let kind ← le16At data pos
    let hdr ← le16At data (pos+2)
    let size ← le32At data (pos+4)
    let bytes ← slice data pos (min (pos+size) data.length)
    return some ⟨kind,hdr,size,bytes⟩

/-- The name in a chunk of the table, if it is the chunk of a package. -/
def nameIn (c : Chunk) : Option (Option Bytes) :=
  if c.kind = 0x0200 then do
    let name ← packageNameFromPackageChunk c.bytes c.header
    return name.filter (· != [])
  else some none

/-- The loop of `package_name_from_arsc`, of which there are at most so many rounds. -/
def arscLoop (data : Bytes) : ℕ → ℕ → Option (Option Bytes)
  | 0, _ => some none
  | rounds+1, pos => do
    match ← tableChunkAt data pos with
    | none => return none
    | some c =>
      match ← nameIn c with
      | some name => return some name
      | none => if c.size = 0 then return none else arscLoop data rounds (pos+c.size)

def packageNameFromArsc (data : Bytes) : Option (Option Bytes) :=
  if data.length ≥ 12 then do
    let tableSize ← le32At data 4
    arscLoop data 4 (max (min tableSize data.length) 12)
  else some none

end AdbShare.Manifest
