import AdbShare.Slices

/-! Reading the answers of the multicast resolver. A packet is any bytes: names are followed
through compression pointers, and each kind of record moves the position on in its own way.
`none` stands for a panic. -/
namespace AdbShare.Mdns

open Slices Option

inductive Record
  | ptr (name : Bytes)
  | srv (target : Bytes) (port : ℕ)
  | txt (strings : List Bytes)
  | a (ip : UInt8 × UInt8 × UInt8 × UInt8)
  deriving DecidableEq

def DOT : UInt8 := 46

/-- `parts.join(".")`. -/
def joinParts (parts : List Bytes) : Bytes := [DOT].intercalate parts

/-- The name when its last part is what a pointer leads to. -/
def withSuffix (parts : List Bytes) (suffix : Bytes) : Bytes :=
  if suffix ≠ [] then
    let all := joinParts parts
    (if all ≠ [] then all++[DOT] else all)++suffix
  else joinParts parts

/-- The loop of `read_name_depth`, with the position it has come to; a pointer is followed by `jump`. -/
def readLabels (jump : ℕ → Except String Bytes) (msg : Bytes) (offset : ℕ) (parts : List Bytes) :
    Except String Bytes × ℕ :=
  match h : msg[offset]? with
  | none => (.error "dns name overrun",offset)
  | some b =>
    if b = 0 then (.ok (joinParts parts),offset+1)
    else if b &&& 0xC0 = 0xC0 then
      match msg[offset+1]? with
      | none => (.error "dns ptr overrun",offset+1)
      | some lo =>
        let ptr := 256*(b &&& 0x3F).toNat+lo.toNat
        if ptr ≥ msg.length then (.error "dns ptr out of bounds",offset+2)
        else ((jump ptr).map (withSuffix parts),offset+2)
    else
      match slice msg (offset+1) (offset+1+b.toNat) with
      | none => (.error "dns label overrun",offset+1)
      | some label =>
        have : offset < msg.length := (List.getElem?_eq_some_iff.mp h).1
        readLabels jump msg (offset+1+b.toNat) (parts++[Utf8.fromUtf8Lossy label])
termination_by msg.length-offset

/-- `read_name_depth`, when so many levels of pointers are still allowed. -/
def readNameDepth (msg : Bytes) : ℕ → ℕ → Except String Bytes × ℕ
  | 0, offset => (.error "dns compression loop or recursion limit",offset)
  | levels+1, offset => readLabels (fun ptr => (readNameDepth msg levels ptr).1) msg offset []

def readName (msg : Bytes) (offset : ℕ) : Except String Bytes × ℕ := readNameDepth msg 11 offset

/-- What stands before the data of a record. -/
structure Header where
  owner : Bytes
  rtype : ℕ
  rdlen : ℕ
  /-- Where the data starts. -/
  rdata : ℕ
  deriving DecidableEq

def Header.rdataEnd (hdr : Header) : ℕ := hdr.rdata+hdr.rdlen

/-- The owner and the ten bytes after it, if they are there. -/
def readHeader (msg : Bytes) (off : ℕ) : Option (Option Header) :=
  match readName msg off with
  | (.error _,_) => some none
  | (.ok owner,off) =>
    match slice msg off (off+10) with
    | none => some none
    | some hdr => do
      let rtype ← be16At hdr 0
      let rdlen ← be16At hdr 8
      return some ⟨owner,rtype,rdlen,off+10⟩

/-- The strings of a TXT record. -/
def readStrings (msg : Bytes) (p rdataEnd : ℕ) : List Bytes :=
  if p < rdataEnd then
    let slen := (msg[p]?.getD 0).toNat
    Utf8.fromUtf8Lossy ((slice msg (p+1) (p+1+slen)).getD [])::readStrings msg (p+1+slen) rdataEnd
  else []
termination_by rdataEnd-p

/-- The record, if it is of a kind that is read, and where the next one is looked for. -/
def readRdata (msg : Bytes) (hdr : Header) : Option (Option Record × ℕ) :=
  if hdr.rtype = 12 then
    let (name,off) := readName msg hdr.rdata
    some (name.toOption.map .ptr,off)
  else if hdr.rtype = 33 then
    let port := 256*(msg[hdr.rdata+4]?.getD 0).toNat+(msg[hdr.rdata+5]?.getD 0).toNat
    let (target,off) := readName msg (hdr.rdata+6)
    some (target.toOption.map (.srv · port),off)
  else if hdr.rtype = 16 then some (some (.txt (readStrings msg hdr.rdata hdr.rdataEnd)),hdr.rdataEnd)
  else if hdr.rtype = 1 ∧ hdr.rdlen = 4 then do
    let a ← msg[hdr.rdata]?
    let b ← msg[hdr.rdata+1]?
    let c ← msg[hdr.rdata+2]?
    let d ← msg[hdr.rdata+3]?
    return (some (.a (a,b,c,d)),hdr.rdataEnd)
  else some (none,hdr.rdataEnd)

/-- The position after the questions, unless the name in one of them cannot be read. -/
def skipQuestions (msg : Bytes) : ℕ → ℕ → Option ℕ
  | 0, off => some off
  | questions+1, off =>
    match readName msg off with
    | (.error _,_) => none
    | (.ok _,off) => skipQuestions msg questions (off+4)

/-- How many records there are said to be and where the first one is. -/
def records (msg : Bytes) : Option (Option (ℕ × ℕ)) :=
  if msg.length < 12 then some none
  else do
    let qd ← be16At msg 4
    let an ← be16At msg 6
    let ns ← be16At msg 8
    let ar ← be16At msg 10
    return (skipQuestions msg qd 12).map fun off => (an+ns+ar,off)

/-- The loop over the records. -/
def readRecords (msg : Bytes) : ℕ → ℕ → List (Bytes × Record) → Option (List (Bytes × Record))
  | 0, _, out => some out
  | count+1, off, out => do
    match ← readHeader msg off with
    | none => return out
    | some hdr =>
      let (record,off) ← readRdata msg hdr
      readRecords msg count off (out++(record.map (hdr.owner,·)).toList)

def parseResponse (msg : Bytes) : Option (List (Bytes × Record)) := do
  match ← records msg with
  | none => return []
  | some (count,off) => readRecords msg count off []

/-- In the reading of the packet a record is looked for at the offset, with so many to go. -/
inductive Begins (msg : Bytes) : ℕ → ℕ → Prop
  | first {count off : ℕ} (h : records msg = some (some (count,off))) : Begins msg count off
  | next {count off off' : ℕ} {hdr : Header} {record : Option Record} (h : Begins msg (count+1) off)
      (hhdr : readHeader msg off = some (some hdr)) (hrdata : readRdata msg hdr = some (record,off')) :
      Begins msg count off'

/-- Each record but the first is looked for where the data of the one before it ends. -/
def InStep (msg : Bytes) : Prop :=
  ∀ {count off off' : ℕ} {hdr : Header} {record : Option Record}, Begins msg (count+2) off →
    readHeader msg off = some (some hdr) → readRdata msg hdr = some (record,off') → off' = hdr.rdataEnd

/-- By the lengths that the records give, there is a record at the offset, with so many to go. -/
inductive Due (msg : Bytes) : ℕ → ℕ → Prop
  | first {count off : ℕ} (h : records msg = some (some (count,off))) : Due msg count off
  | next {count off : ℕ} {hdr : Header} (h : Due msg (count+1) off)
      (hhdr : readHeader msg off = some (some hdr)) : Due msg count hdr.rdataEnd

/-- An address of four bytes is in the packet. -/
def Present (msg : Bytes) (hdr : Header) : Prop := hdr.rtype = 1 → hdr.rdlen = 4 → hdr.rdataEnd ≤ msg.length

/-- The name that ends a PTR or SRV record ends with the data. -/
def Exact (msg : Bytes) (hdr : Header) : Prop :=
  (hdr.rtype = 12 → (readName msg hdr.rdata).2 = hdr.rdataEnd) ∧
    (hdr.rtype = 33 → (readName msg (hdr.rdata+6)).2 = hdr.rdataEnd)

/-- The records of the packet are as long as they say; nothing follows the last. -/
def Tame (msg : Bytes) : Prop :=
  ∀ {count off : ℕ} {hdr : Header}, Due msg (count+1) off → readHeader msg off = some (some hdr) →
    Present msg hdr ∧ (count ≠ 0 → Exact msg hdr)

section

variable {msg : Bytes} {count off : ℕ} {hdr : Header} {record : Option Record} {out : List (Bytes × Record)}

theorem exists_records (msg : Bytes) : ∃ r, records msg = some r := by
  unfold records
  split_ifs with h
  · exact ⟨none,rfl⟩
  obtain ⟨qd,hqd⟩ := exists_be16At (by omega : 4+2 ≤ msg.length)
  obtain ⟨an,han⟩ := exists_be16At (by omega : 6+2 ≤ msg.length)
  obtain ⟨ns,hns⟩ := exists_be16At (by omega : 8+2 ≤ msg.length)
  obtain ⟨ar,har⟩ := exists_be16At (by omega : 10+2 ≤ msg.length)
  rw [hqd,han,hns,har]
  exact ⟨_,rfl⟩

theorem exists_readHeader (msg : Bytes) (off : ℕ) : ∃ h, readHeader msg off = some h := by
  unfold readHeader
  split
  · exact ⟨none,rfl⟩
  split
  · exact ⟨none,rfl⟩
  rename_i owner off' hname hdr hslice
  have hlength := length_of_slice hslice
  obtain ⟨rtype,hrtype⟩ := exists_be16At (by omega : 0+2 ≤ hdr.length)
  obtain ⟨rdlen,hrdlen⟩ := exists_be16At (by omega : 8+2 ≤ hdr.length)
  rw [hrtype,hrdlen]
  exact ⟨_,rfl⟩

theorem exists_readRdata_iff : (∃ r, readRdata msg hdr = some r) ↔ Present msg hdr := by
  unfold readRdata Present
  by_cases haddress : hdr.rtype = 1 ∧ hdr.rdlen = 4
  · obtain ⟨hrtype,hrdlen⟩ := haddress
    have hend : hdr.rdataEnd = hdr.rdata+4 := by rw [Header.rdataEnd,hrdlen]
    simp only [hrtype,hrdlen,true_imp_iff,and_self,if_true,hend]
    constructor
    · rintro ⟨r,hr⟩
      obtain ⟨a,-,hr⟩ := bind_eq_some_iff.mp hr
      obtain ⟨b,-,hr⟩ := bind_eq_some_iff.mp hr
      obtain ⟨c,-,hr⟩ := bind_eq_some_iff.mp hr
      obtain ⟨d,hd,-⟩ := bind_eq_some_iff.mp hr
      have := (List.getElem?_eq_some_iff.mp hd).1
      omega
    · intro hlength
      obtain ⟨a,ha⟩ := exists_getElem? (by omega : hdr.rdata < msg.length)
      obtain ⟨b,hb⟩ := exists_getElem? (by omega : hdr.rdata+1 < msg.length)
      obtain ⟨c,hc⟩ := exists_getElem? (by omega : hdr.rdata+2 < msg.length)
      obtain ⟨d,hd⟩ := exists_getElem? (by omega : hdr.rdata+3 < msg.length)
      rw [ha,hb,hc,hd]
      exact ⟨_,rfl⟩
  · rw [if_neg haddress]
    constructor
    · rintro - hrtype hrdlen
      exact absurd ⟨hrtype,hrdlen⟩ haddress
    · intro
      split_ifs <;> exact ⟨_,rfl⟩

/-- Where the next record is looked for. -/
theorem readRdata_offset (h : readRdata msg hdr = some (record,off)) : off = hdr.rdataEnd ↔ Exact msg hdr := by
  unfold readRdata at h
  unfold Exact
  split_ifs at h with hptr hsrv htxt haddress
  · have hoff : (readName msg hdr.rdata).2 = off := (Prod.mk.inj (some.inj h)).2
    simp [hptr,hoff]
  · have hoff : (readName msg (hdr.rdata+6)).2 = off := (Prod.mk.inj (some.inj h)).2
    simp [hsrv,hoff]
  · cases h
    simp [hptr,hsrv]
  · obtain ⟨a,-,h⟩ := bind_eq_some_iff.mp h
    obtain ⟨b,-,h⟩ := bind_eq_some_iff.mp h
    obtain ⟨c,-,h⟩ := bind_eq_some_iff.mp h
    obtain ⟨d,-,h⟩ := bind_eq_some_iff.mp h
    cases h
    simp [hptr,hsrv]
  · cases h
    simp [hptr,hsrv]

theorem readRecords_succ_isSome_iff :
    (readRecords msg (count+1) off out).isSome ↔ ∀ hdr, readHeader msg off = some (some hdr) →
      ∃ record off', readRdata msg hdr = some (record,off') ∧
        (readRecords msg count off' (out++(record.map (hdr.owner,·)).toList)).isSome := by
  obtain ⟨header,hheader⟩ := exists_readHeader msg off
  rw [readRecords,hheader]
  cases header with
  | none => simp
  | some hdr =>
    simp only [bind_eq_bind,bind_some,some.injEq,forall_eq']
    cases hrdata : readRdata msg hdr with
    | none => simp
    | some next =>
      obtain ⟨record,off'⟩ := next
      simp

theorem Begins.goes_on (h : Begins msg count off) (hok : (parseResponse msg).isSome) :
    ∃ out, (readRecords msg count off out).isSome := by
  induction h with
  | first h =>
    rw [parseResponse,h] at hok
    exact ⟨[],hok⟩
  | next h hhdr hrdata ih =>
    obtain ⟨out,hout⟩ := ih
    obtain ⟨record,off',hread,hgo⟩ := readRecords_succ_isSome_iff.mp hout _ hhdr
    obtain ⟨-,rfl⟩ := Prod.mk.inj (some.inj (hrdata.symm.trans hread))
    exact ⟨_,hgo⟩

/-- The packet is read without a panic if and only if the addresses that are come to are in it. -/
theorem parseResponse_isSome_iff : (parseResponse msg).isSome ↔
    ∀ count off hdr, Begins msg (count+1) off → readHeader msg off = some (some hdr) → Present msg hdr := by
  constructor
  · intro hok count off hdr hbegins hhdr
    obtain ⟨out,hout⟩ := hbegins.goes_on hok
    obtain ⟨record,off',hread,-⟩ := readRecords_succ_isSome_iff.mp hout hdr hhdr
    exact exists_readRdata_iff.mp ⟨_,hread⟩
  · intro hpresent
    have hgo : ∀ count off out, Begins msg count off → (readRecords msg count off out).isSome := by
      intro count
      induction count with
      | zero => exact fun off out _ => rfl
      | succ count ih =>
        intro off out hbegins
        rw [readRecords_succ_isSome_iff]
        intro hdr hhdr
        obtain ⟨⟨record,off'⟩,hread⟩ := exists_readRdata_iff.mpr (hpresent count off hdr hbegins hhdr)
        exact ⟨record,off',hread,ih off' _ (.next hbegins hhdr hread)⟩
    obtain ⟨r,hr⟩ := exists_records msg
    rw [parseResponse,hr]
    cases r with
    | none => rfl
    | some next => exact hgo next.1 next.2 [] (.first hr)

theorem Due.begins (h : Due msg count off) (hok : (parseResponse msg).isSome) (hstep : InStep msg)
    (hcount : count ≠ 0) : Begins msg count off := by
  induction h with
  | first h => exact .first h
  | @next count off hdr h hhdr ih =>
    have hbegins := ih (Nat.succ_ne_zero count)
    obtain ⟨⟨record,off'⟩,hread⟩ :=
      exists_readRdata_iff.mpr (parseResponse_isSome_iff.mp hok count off hdr hbegins hhdr)
    obtain ⟨count,rfl⟩ := Nat.exists_eq_succ_of_ne_zero hcount
    rw [← hstep hbegins hhdr hread]
    exact .next hbegins hhdr hread

theorem Begins.due (h : Begins msg count off) (htame : Tame msg) (hcount : count ≠ 0) : Due msg count off := by
  induction h with
  | first h => exact .first h
  | next h hhdr hrdata ih =>
    have hdue := ih (Nat.succ_ne_zero _)
    rw [(readRdata_offset hrdata).mpr ((htame hdue hhdr).2 hcount)]
    exact .next hdue hhdr

end

/-- A packet is read without a panic and in step with the lengths of its records exactly if by those
lengths every address is in the packet and every name that ends a PTR or SRV record before
the last ends with it. -/
theorem reads_in_step_iff (msg : Bytes) : (parseResponse msg).isSome ∧ InStep msg ↔ Tame msg := by
  constructor
  · rintro ⟨hok,hstep⟩ count off hdr hdue hhdr
    have hbegins := hdue.begins hok hstep (Nat.succ_ne_zero count)
    have hpresent := parseResponse_isSome_iff.mp hok count off hdr hbegins hhdr
    refine ⟨hpresent,?_⟩
    intro hcount
    obtain ⟨⟨record,off'⟩,hread⟩ := exists_readRdata_iff.mpr hpresent
    obtain ⟨count,rfl⟩ := Nat.exists_eq_succ_of_ne_zero hcount
    exact (readRdata_offset hread).mp (hstep hbegins hhdr hread)
  · intro htame
    constructor
    · rw [parseResponse_isSome_iff]
      intro count off hdr hbegins hhdr
      exact (htame (hbegins.due htame (Nat.succ_ne_zero count)) hhdr).1
    · intro count off off' hdr record hbegins hhdr hread
      have hdue := hbegins.due htame (Nat.succ_ne_zero _)
      exact (readRdata_offset hread).mpr ((htame hdue hhdr).2 (Nat.succ_ne_zero count))

/-- A packet with one record: an address of four bytes that is not there. -/
def cutOff : Bytes := [0,0,0,0,0,0,0,1,0,0,0,0, 0, 0,1,0,1,0,0,0,0,0,4]

/-- A PTR record of seven bytes, in which the name takes one, and an address after it. -/
def padded : Bytes :=
  [0,0,0,0,0,0,0,2,0,0,0,0, 0, 0,12,0,1,0,0,0,0,0,7, 0, 0,0,0,0,0,0, 0, 0,1,0,1,0,0,0,0,0,4, 10,0,0,7]

/-- The first packet panics. In the second the record after the name is looked for in what is left
of the data, and the address is not found where it is. -/
theorem packets_misread : parseResponse cutOff = none ∧ ¬ InStep padded ∧
    parseResponse padded = some [([],.ptr [])] ∧ Due padded 1 30 ∧
    readHeader padded 30 = some (some ⟨[],1,4,41⟩) ∧
    readRdata padded ⟨[],1,4,41⟩ = some (some (.a (10,0,0,7)),45) := by
  have hrecords : records padded = some (some (2,12)) := by decide +kernel
  have hhdr : readHeader padded 12 = some (some ⟨[],12,7,23⟩) := by decide +kernel
  have hread : readRdata padded ⟨[],12,7,23⟩ = some (some (.ptr []),24) := by decide +kernel
  refine ⟨by decide +kernel,?_,by decide +kernel,.next (.first hrecords) hhdr,by decide +kernel,by decide +kernel⟩
  intro hstep
  exact absurd (hstep (.first hrecords) hhdr hread) (by decide)

end AdbShare.Mdns
