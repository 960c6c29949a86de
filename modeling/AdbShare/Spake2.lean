import AdbShare.Bytes
import AdbShare.Ladder

/-! SPAKE2 as the pairing client speaks it, over any commutative group with a point encoding
and any hash. Two sides that start from one password unmask each other's message to the same
point and hash the same transcript. -/
namespace AdbShare.Pairing

open Ladder List

/-- A byte string of a fixed length. -/
structure Block (n : ℕ) where
  bytes : Bytes
  size : bytes.length = n
deriving DecidableEq

inductive Error
  | codeMismatch
  | io (text : String)
  | tls (text : String)
  | protocol (text : String)
  | key (text : String)
  | timeout
deriving DecidableEq

/-- The order of the prime-order subgroup that the scalars of the curve library work with. -/
def GROUP_ORDER : ℕ := 2^252+27742317777372353535851937790883648493

/-- The group that stands for edwards25519, with the encoding of its points, the reduction of wide
scalars and SHA-512. -/
structure Suite (G : Type) [AddCommGroup G] where
  base : G
  compress : G → Block 32
  decompress : Block 32 → Option G
  decompress_compress : ∀ P, decompress (compress P) = some P
  /-- `Scalar::from_bytes_mod_order_wide`, as bytes. -/
  reduceWide : Block 64 → Block 32
  reduceWide_eq : ∀ wide, fromLe (reduceWide wide).bytes = fromLe wide.bytes%GROUP_ORDER
  sha512 : Bytes → Block 64

def M_ENCODED : Block 32 := ⟨[
  0x5a,0xda,0x7e,0x4b,0xf6,0xdd,0xd9,0xad,0xb6,0x62,0x6d,0x32,0x13,0x1c,0x6b,0x5c,
  0x51,0xa1,0xe3,0x47,0xa3,0x47,0x8f,0x53,0xcf,0xcf,0x44,0x1b,0x88,0xee,0xd1,0x2e],rfl⟩

def N_ENCODED : Block 32 := ⟨[
  0x10,0xe3,0xdf,0x0a,0xe3,0x7d,0x8e,0x7a,0x99,0xb5,0xfe,0x74,0xb4,0x46,0x72,0x10,
  0x3d,0xbd,0xdc,0xbd,0x06,0xaf,0x68,0x0d,0x71,0x32,0x9a,0x11,0x69,0x3b,0xc7,0x78],rfl⟩

def ORDER : Block 32 := ⟨[
  0xed,0xd3,0xf5,0x5c,0x1a,0x63,0x12,0x58,0xd6,0x9a,0x7a,0xa2,0xde,0xf9,0xde,0x14,
  0x00,0x00,0x00,0x00,0x00,0x00,0x00,0x00,0x00,0x00,0x00,0x00,0x00,0x00,0x00,0x10],rfl⟩

/-- The bits of a byte as `mul_wide` takes them. -/
def byteBits (byte : UInt8) : List Bool :=
  (range 8).map fun i => (byte >>> UInt8.ofNat i) &&& 1 == 1

def mulWide {G : Type} [AddCommGroup G] (point : G) (scalar : Block 32) : G :=
  (scalar.bytes.foldl (fun s byte => (byteBits byte).foldl rung s) (0,point)).1

/-- The bytes shifted by three bits over the carry of the byte before. -/
def shiftCarry : UInt8 → Bytes → Bytes
  | _, [] => []
  | carry, byte::rest => (byte <<< 3 ||| carry)::shiftCarry (byte >>> 5) rest

theorem shiftCarry_length (carry : UInt8) (bs : Bytes) : (shiftCarry carry bs).length = bs.length := by
  induction bs generalizing carry with
  | nil => rfl
  | cons b bs ih => simp [shiftCarry,ih]

def leftShift3 (scalar : Block 32) : Block 32 :=
  ⟨shiftCarry 0 scalar.bytes,(shiftCarry_length 0 _).trans scalar.size⟩

/-- The sum of the bytes over the carry of the bytes before. -/
def addCarry : ℕ → Bytes → Bytes → Bytes
  | carry, d::ds, s::ss => UInt8.ofNat (d.toNat+s.toNat+carry)::addCarry ((d.toNat+s.toNat+carry)/256) ds ss
  | _, dest, _ => dest

theorem addCarry_length (carry : ℕ) (dest src : Bytes) : (addCarry carry dest src).length = dest.length := by
  induction dest generalizing carry src with
  | nil => simp [addCarry]
  | cons d ds ih => cases src <;> simp [addCarry,ih]

def addWide (dest src : Block 32) : Block 32 :=
  ⟨addCarry 0 dest.bytes src.bytes,(addCarry_length 0 _ _).trans dest.size⟩

/-- Round `bit` clears that bit of the running value with a multiple of the order. -/
def clearBit (s : Block 32 × Block 32) (bit : UInt8) : Block 32 × Block 32 :=
  (if s.1.bytes.headD 0 &&& (1 <<< bit) != 0 then addWide s.1 s.2 else s.1,addWide s.2 s.2)

def passwordScalar {G : Type} [AddCommGroup G] (E : Suite G) (passwordHash : Block 64) : Block 32 :=
  ([0,1,2].foldl clearBit (E.reduceWide passwordHash,ORDER)).1

structure Spake2 (G : Type) where
  roleAlice : Bool
  myName : Bytes
  theirName : Bytes
  passwordHash : Block 64
  passwordScalar : Block 32
  myMsg : Block 32
  myMsgPoint : G
  privateScalar : Block 32
  generated : Bool

/-- A name with its NUL terminator. -/
def cName (s : String) : Bytes := s.toList.map (fun c => UInt8.ofNat c.toNat)++[0]

def clientName : Bytes := cName "adb pair client"
def serverName : Bytes := cName "adb pair server"

def zeroBlock (n : ℕ) : Block n := ⟨replicate n 0,length_replicate⟩

variable {G : Type}

namespace Spake2

variable [AddCommGroup G] (E : Suite G)

def new (roleAlice : Bool) (password : Bytes) : Spake2 G where
  roleAlice := roleAlice
  myName := if roleAlice then clientName else serverName
  theirName := if roleAlice then serverName else clientName
  passwordHash := E.sha512 password
  passwordScalar := Pairing.passwordScalar E (E.sha512 password)
  myMsg := zeroBlock 32
  myMsgPoint := 0
  privateScalar := zeroBlock 32
  generated := false

/-- `generate_msg` on the 64 bytes read from the random source; none where a mask constant
does not decompress and the call panics. -/
def generateMsg (self : Spake2 G) (privateTmp : Block 64) : Option (Spake2 G × Block 32) :=
  (E.decompress (if self.roleAlice then M_ENCODED else N_ENCODED)).map fun maskPoint =>
    let scalar := leftShift3 (E.reduceWide privateTmp)
    let point := mulWide E.base scalar+mulWide maskPoint self.passwordScalar
    ({ self with
        privateScalar := scalar
        myMsgPoint := point
        myMsg := E.compress point
        generated := true },E.compress point)

/-- A field of the transcript with its length before it. -/
def lp (data : Bytes) : Bytes := toLe 8 data.length++data

/-- What `process_msg` feeds to the hash. -/
def transcript (self : Spake2 G) (theirMsg dhEncoded : Block 32) : Bytes :=
  (if self.roleAlice
    then lp self.myName++lp self.theirName++lp self.myMsg.bytes++lp theirMsg.bytes
    else lp self.theirName++lp self.myName++lp theirMsg.bytes++lp self.myMsg.bytes)++
  lp dhEncoded.bytes++lp self.passwordHash.bytes

/-- `process_msg` up to the hash. -/
def hashInput (self : Spake2 G) (theirMsg : Block 32) : Except Error Bytes :=
  if self.generated then
    match E.decompress theirMsg with
    | none => .error (.protocol "peer point not on curve")
    | some theirPoint =>
      match E.decompress (if self.roleAlice then N_ENCODED else M_ENCODED) with
      | none => .error (.protocol "SPAKE2 mask point does not decompress")
      | some theirMask =>
        let unmasked := theirPoint-mulWide theirMask self.passwordScalar
        .ok (self.transcript theirMsg (E.compress (mulWide unmasked self.privateScalar)))
  else .error (.protocol "process before generate")

def processMsg (self : Spake2 G) (theirMsg : Block 32) : Except Error (Block 64) :=
  (hashInput E self theirMsg).map E.sha512

end Spake2

section

theorem value_byteBits (byte : UInt8) : value (byteBits byte) = byte.toNat := by
  have h : ∀ i : Fin 256, value (byteBits (UInt8.ofNat i.val)) = i.val := by decide +kernel
  have hb := h ⟨byte.toNat,byte.toNat_lt⟩
  rwa [UInt8.ofNat_toNat] at hb

variable {dest src : Block 32} {bit : UInt8} {bits : List UInt8} {s : Block 32 × Block 32} {x : ℕ}

theorem foldl_byteBits [AddCommGroup G] (scalar : Bytes) (sum addend : G) :
    scalar.foldl (fun s byte => (byteBits byte).foldl rung s) (sum,addend) =
      (sum+fromLe scalar•addend,256^scalar.length•addend) := by
  induction scalar generalizing sum addend with
  | nil => simp [fromLe]
  | cons byte rest ih =>
    have hbits : (byteBits byte).length = 8 := by simp [byteBits]
    rw [foldl_cons,foldl_rung,value_byteBits,hbits,ih]
    simp [fromLe,smul_smul,mul_comm,pow_succ,add_smul,add_assoc]

/-- The ladder multiplies by the whole number, without reducing it. -/
theorem mulWide_eq [AddCommGroup G] (point : G) (scalar : Block 32) : mulWide point scalar = fromLe scalar.bytes•point := by
  rw [mulWide,foldl_byteBits,zero_add]

/-- So it goes over to sums of points, and of scalars as long as the sum is one. -/
theorem mulWide_additive {G : Type} [AddCommGroup G] (P Q : G) (scalar a b : Block 32) :
    mulWide P scalar = fromLe scalar.bytes•P ∧ mulWide (P+Q) scalar = mulWide P scalar+mulWide Q scalar ∧
      (fromLe a.bytes+fromLe b.bytes < 2^256 →
        mulWide P ⟨toLe 32 (fromLe a.bytes+fromLe b.bytes),toLe_length 32 _⟩ = mulWide P a+mulWide P b) := by
  refine ⟨mulWide_eq P scalar,by simp [mulWide_eq],fun h => ?_⟩
  simp only [mulWide_eq]
  rw [fromLe_toLe h,add_smul]

theorem fromLe_shiftCarry (carry : UInt8) (hc : carry.toNat < 8) (bs : Bytes) :
    fromLe (shiftCarry carry bs) = (8*fromLe bs+carry.toNat)%256^bs.length := by
  induction bs generalizing carry with
  | nil => simp [shiftCarry,fromLe,Nat.mod_one]
  | cons b bs ih =>
    have hb := b.toNat_lt
    have hlow : (b <<< 3 ||| carry).toNat = (8*b.toNat+carry.toNat)%256 := by
      have hshift : (b <<< 3).toNat = (b.toNat%32) <<< 3 := by
        rw [UInt8.toNat_shiftLeft,Nat.shiftLeft_eq,Nat.shiftLeft_eq]
        change b.toNat*2^3%256 = b.toNat%32*2^3
        omega
      rw [UInt8.toNat_or,hshift,← Nat.shiftLeft_add_eq_or_of_lt hc,Nat.shiftLeft_eq]
      omega
    have hhigh : (b >>> 5).toNat = b.toNat/32 := by
      rw [UInt8.toNat_shiftRight,Nat.shiftRight_eq_div_pow]
      rfl
    have hdigit : (8*(b.toNat+256*fromLe bs)+carry.toNat)%256 = (8*b.toNat+carry.toNat)%256 := by omega
    have hrest : (8*(b.toNat+256*fromLe bs)+carry.toNat)/256 = 8*fromLe bs+b.toNat/32 := by omega
    rw [shiftCarry,fromLe,ih _ (by omega),hlow,hhigh,length_cons,pow_succ',fromLe,Nat.mod_mul,hdigit,hrest]

/-- The ephemeral scalar is the cofactor times the reduced random number; nothing is cut off. -/
theorem fromLe_ephemeral [AddCommGroup G] (E : Suite G) (wide : Block 64) :
    fromLe (leftShift3 (E.reduceWide wide)).bytes = 8*(fromLe wide.bytes%GROUP_ORDER) := by
  have h := fromLe_shiftCarry 0 (by decide) (E.reduceWide wide).bytes
  have hlt := Nat.mod_lt (fromLe wide.bytes) (show 0 < GROUP_ORDER by decide)
  have hbound : 8*GROUP_ORDER ≤ 256^32 := by decide
  rw [E.reduceWide_eq,(E.reduceWide wide).size,UInt8.toNat_zero,Nat.add_zero] at h
  exact h.trans (Nat.mod_eq_of_lt (by omega))

theorem fromLe_addCarry (carry : ℕ) {dest src : Bytes} (h : src.length = dest.length) :
    fromLe (addCarry carry dest src) = (fromLe dest+fromLe src+carry)%256^dest.length := by
  induction dest generalizing carry src with
  | nil => simp [addCarry,fromLe,Nat.mod_one]
  | cons d ds ih =>
    cases src with
    | nil => cases h
    | cons s ss =>
      have hlow : (UInt8.ofNat (d.toNat+s.toNat+carry)).toNat = (d.toNat+s.toNat+carry)%256 := by simp
      have hdigit : (d.toNat+256*fromLe ds+(s.toNat+256*fromLe ss)+carry)%256 = (d.toNat+s.toNat+carry)%256 := by omega
      have hrest : (d.toNat+256*fromLe ds+(s.toNat+256*fromLe ss)+carry)/256 =
          fromLe ds+fromLe ss+(d.toNat+s.toNat+carry)/256 := by omega
      rw [addCarry,fromLe,ih _ (Nat.succ.inj h),hlow,length_cons,pow_succ',fromLe,fromLe,Nat.mod_mul, hdigit,hrest]

theorem fromLe_addWide (h : fromLe dest.bytes+fromLe src.bytes < 256^32) :
    fromLe (addWide dest src).bytes = fromLe dest.bytes+fromLe src.bytes := by
  have hsum := fromLe_addCarry 0 (src.size.trans dest.size.symm)
  rw [dest.size,Nat.add_zero,Nat.mod_eq_of_lt h] at hsum
  exact hsum

/-- The rounds on numbers, with sums that never wrap. -/
def clearNat (s : ℕ × ℕ) (bit : UInt8) : ℕ × ℕ := (if s.1/2^bit.toNat%2 = 1 then s.1+s.2 else s.1,s.2+s.2)

def both (s : Block 32 × Block 32) : ℕ × ℕ := (fromLe s.1.bytes,fromLe s.2.bytes)

theorem bit_eq (b : Block 32) (hbit : bit ∈ [0,1,2]) :
    (b.bytes.headD 0 &&& (1 <<< bit) != 0) = decide (fromLe b.bytes/2^bit.toNat%2 = 1) := by
  have hbyte : ∀ bit ∈ ([0,1,2] : List UInt8), ∀ i : Fin 256,
      (UInt8.ofNat i.val &&& (1 <<< bit) != 0) = decide (i.val/2^bit.toNat%2 = 1) := by decide +kernel
  obtain ⟨_ | ⟨d,ds⟩,hd⟩ := b
  · cases hd
  have h := hbyte bit hbit ⟨d.toNat,d.toNat_lt⟩
  rw [UInt8.ofNat_toNat] at h
  refine h.trans (decide_eq_decide.mpr ?_)
  rw [fromLe]
  simp only [mem_cons,not_mem_nil,or_false] at hbit
  obtain rfl | rfl | rfl := hbit
  · change d.toNat/1%2 = 1 ↔ (d.toNat+256*fromLe ds)/1%2 = 1
    omega
  · change d.toNat/2%2 = 1 ↔ (d.toNat+256*fromLe ds)/2%2 = 1
    omega
  · change d.toNat/4%2 = 1 ↔ (d.toNat+256*fromLe ds)/4%2 = 1
    omega

theorem both_foldl (hbits : ∀ bit ∈ bits, bit ∈ [0,1,2])
    (hsum : (both s).1+2^bits.length*(both s).2 < 256^32+(both s).2) (hdouble : 2^bits.length*(both s).2 < 256^32) :
    both (bits.foldl clearBit s) = bits.foldl clearNat (both s) := by
  induction bits generalizing s with
  | nil => rfl
  | cons bit bits ih =>
    rw [forall_mem_cons] at hbits
    have hpow : (both s).2 ≤ 2^bits.length*(both s).2 := Nat.le_mul_of_pos_left _ (Nat.two_pow_pos _)
    rw [length_cons,pow_succ,Nat.mul_right_comm] at hsum hdouble
    have hround : both (clearBit s bit) = clearNat (both s) bit := by
      have hadd : fromLe (addWide s.1 s.2).bytes = (both s).1+(both s).2 := fromLe_addWide (by
        change (both s).1+(both s).2 < _
        omega)
      have htwice : fromLe (addWide s.2 s.2).bytes = (both s).2+(both s).2 := fromLe_addWide (by
        change (both s).2+(both s).2 < _
        omega)
      rw [both,clearBit,bit_eq s.1 hbits.1,htwice,apply_ite (fun b : Block 32 => fromLe b.bytes),hadd,clearNat]
      simp only [decide_eq_true_eq]
      rfl
    have hnext : (both (clearBit s bit)).1 ≤ (both s).1+(both s).2 ∧
        (both (clearBit s bit)).2 = (both s).2+(both s).2 := by
      rw [hround,clearNat]
      refine ⟨?_,rfl⟩
      dsimp only
      split_ifs <;> omega
    rw [foldl_cons,foldl_cons,← hround]
    refine ih hbits.2 ?_ ?_
    · rw [hnext.2,Nat.mul_add]
      omega
    · rw [hnext.2,Nat.mul_add]
      omega

/-- What the password scalar is to be: the hash modulo the order, a multiple of the cofactor, and each round
the sum of what it adds. -/
structure RightScalar [AddCommGroup G] (E : Suite G) (passwordHash : Block 64) : Prop where
  congruent : fromLe (passwordScalar E passwordHash).bytes ≡ fromLe passwordHash.bytes [MOD GROUP_ORDER]
  cofactor : 8 ∣ fromLe (passwordScalar E passwordHash).bytes
  bound : fromLe (passwordScalar E passwordHash).bytes < 8*GROUP_ORDER
  unwrapped : ∀ n, both (([0,1,2].take n).foldl clearBit (E.reduceWide passwordHash,ORDER)) =
    ([0,1,2].take n).foldl clearNat (fromLe passwordHash.bytes%GROUP_ORDER,fromLe ORDER.bytes)

theorem clearNat_rounds (hx : x < GROUP_ORDER) : let y := ([0,1,2].foldl clearNat (x,fromLe ORDER.bytes)).1
    8 ∣ y ∧ y < 8*GROUP_ORDER ∧ (y ≡ x [MOD GROUP_ORDER] ↔ 8 ∣ x) := by
  have horder : fromLe ORDER.bytes = GROUP_ORDER-0x7d02*2^72 := by decide
  rw [horder]
  simp only [GROUP_ORDER] at hx
  simp only [foldl_cons,foldl_nil,clearNat,Nat.ModEq,GROUP_ORDER,show UInt8.toNat 0 = 0 from rfl,
    show UInt8.toNat 1 = 1 from rfl,show UInt8.toNat 2 = 2 from rfl]
  split_ifs <;> omega

/-- The constant `ORDER` is not the order: a hash comes out right exactly if no multiple of it is added. -/
theorem rightScalar_iff [AddCommGroup G] (E : Suite G) (passwordHash : Block 64) :
    RightScalar E passwordHash ↔ 8 ∣ fromLe passwordHash.bytes%GROUP_ORDER := by
  have hx := Nat.mod_lt (fromLe passwordHash.bytes) (show 0 < GROUP_ORDER by decide)
  have horder : fromLe ORDER.bytes < 2^253 := by decide
  have hgroup : GROUP_ORDER < 2^253 := by decide
  have hstart : both (E.reduceWide passwordHash,ORDER) =
      (fromLe passwordHash.bytes%GROUP_ORDER,fromLe ORDER.bytes) := by rw [both,E.reduceWide_eq]
  have hrounds : ∀ n, both (([0,1,2].take n).foldl clearBit (E.reduceWide passwordHash,ORDER)) =
      ([0,1,2].take n).foldl clearNat (fromLe passwordHash.bytes%GROUP_ORDER,fromLe ORDER.bytes) := by
    intro n
    have hpow : 2^([0,1,2].take n : List UInt8).length ≤ 2^3 := Nat.pow_le_pow_right two_pos (length_take_le' _ _)
    have hmul := Nat.mul_le_mul_right (fromLe ORDER.bytes) hpow
    rw [← hstart]
    refine both_foldl (fun bit hbit => mem_of_mem_take hbit) ?_ ?_
    · rw [hstart]
      dsimp only
      omega
    · rw [hstart]
      dsimp only
      omega
  have hvalue : fromLe (passwordScalar E passwordHash).bytes =
      ([0,1,2].foldl clearNat (fromLe passwordHash.bytes%GROUP_ORDER,fromLe ORDER.bytes)).1 :=
    congrArg Prod.fst (hrounds 3)
  obtain ⟨hcofactor,hbound,hcongruent⟩ := clearNat_rounds hx
  rw [← hvalue] at hcofactor hbound hcongruent
  rw [← hcongruent]
  have hmod : fromLe passwordHash.bytes%GROUP_ORDER ≡ fromLe passwordHash.bytes [MOD GROUP_ORDER] := Nat.mod_modEq _ _
  exact ⟨fun h => h.congruent.trans hmod.symm,fun h => ⟨h.trans hmod,hcofactor,hbound,hrounds⟩⟩

end

namespace Spake2

variable {b b' : Bytes} {n : ℕ} {a a' : Block n} {self side : Spake2 G} {privateTmp : Block 64} {msg : Block 32}
  {mask point : G}

theorem lp_append_inj {a a' : Bytes} (ha : a.length < 256^8) (ha' : a'.length < 256^8)
    (h : lp a++b = lp a'++b') : a = a' ∧ b = b' := by
  rw [lp,lp,append_assoc,append_assoc] at h
  obtain ⟨hlength,h⟩ := append_inj h (by rw [toLe_length,toLe_length])
  refine append_inj h ?_
  rw [← fromLe_toLe ha,hlength,fromLe_toLe ha']

theorem lp_block_inj (hn : n < 256^8) (h : lp a.bytes++b = lp a'.bytes++b') : a = a' ∧ b = b' := by
  obtain ⟨ha,hb⟩ := lp_append_inj (a.size.trans_lt hn) (a'.size.trans_lt hn) h
  exact ⟨Block.mk.injEq _ _ _ _ ▸ ha,hb⟩

/-- The names of the client and the server. -/
def names (self : Spake2 G) : Bytes × Bytes :=
  if self.roleAlice then (self.myName,self.theirName) else (self.theirName,self.myName)

/-- The messages of Alice and Bob. -/
def messages (self : Spake2 G) (theirMsg : Block 32) : Block 32 × Block 32 :=
  if self.roleAlice then (self.myMsg,theirMsg) else (theirMsg,self.myMsg)

theorem transcript_eq (self : Spake2 G) (theirMsg dhEncoded : Block 32) :
    self.transcript theirMsg dhEncoded = lp self.names.1++(lp self.names.2++(lp (self.messages theirMsg).1.bytes++
      (lp (self.messages theirMsg).2.bytes++(lp dhEncoded.bytes++(lp self.passwordHash.bytes++[]))))) := by
  rw [transcript,names,messages]
  split <;> simp

/-- Sessions that hash the same bytes agree on everything they hash. -/
theorem transcript_determines {self other : Spake2 G} {theirMsg theirMsg' dhEncoded dhEncoded' : Block 32}
    (hself : self.myName.length < 2^64 ∧ self.theirName.length < 2^64)
    (hother : other.myName.length < 2^64 ∧ other.theirName.length < 2^64)
    (h : self.transcript theirMsg dhEncoded = other.transcript theirMsg' dhEncoded') :
    self.names = other.names ∧ self.messages theirMsg = other.messages theirMsg' ∧
      dhEncoded = dhEncoded' ∧ self.passwordHash = other.passwordHash := by
  have hfit : ∀ s : Spake2 G, s.myName.length < 2^64 ∧ s.theirName.length < 2^64 →
      s.names.1.length < 256^8 ∧ s.names.2.length < 256^8 := by
    intro s hs
    rw [names]
    split
    · exact hs
    · exact hs.symm
  rw [transcript_eq,transcript_eq] at h
  obtain ⟨hclient,h⟩ := lp_append_inj (hfit _ hself).1 (hfit _ hother).1 h
  obtain ⟨hserver,h⟩ := lp_append_inj (hfit _ hself).2 (hfit _ hother).2 h
  obtain ⟨halice,h⟩ := lp_block_inj (by decide) h
  obtain ⟨hbob,h⟩ := lp_block_inj (by decide) h
  obtain ⟨hdh,h⟩ := lp_block_inj (by decide) h
  exact ⟨Prod.ext hclient hserver,Prod.ext halice hbob,hdh,(lp_block_inj (by decide) h).1⟩

variable [AddCommGroup G] {E : Suite G}

@[simp] theorem new_passwordScalar (role : Bool) (password : Bytes) :
    (new E role password).passwordScalar = Pairing.passwordScalar E (E.sha512 password) := rfl

@[simp] theorem new_passwordHash (role : Bool) (password : Bytes) :
    (new E role password).passwordHash = E.sha512 password := rfl

@[simp] theorem new_roleAlice (role : Bool) (password : Bytes) : (new E role password).roleAlice = role := rfl

theorem new_names (password : Bytes) : (new E true password).myName = (new E false password).theirName ∧
    (new E true password).theirName = (new E false password).myName := by simp [new]

/-- A message is the encoding of the ephemeral multiple of the base under the mask. -/
theorem generateMsg_cases (h : generateMsg E self privateTmp = some (side,msg)) :
    ∃ mask x point, E.decompress (if self.roleAlice then M_ENCODED else N_ENCODED) = some mask ∧
      point = mulWide E.base x+mulWide mask self.passwordScalar ∧ msg = E.compress point ∧
      side = { self with privateScalar := x, myMsgPoint := point, myMsg := msg, generated := true } := by
  obtain ⟨mask,hmask,heq⟩ := Option.map_eq_some_iff.mp h
  cases heq
  exact ⟨mask,_,_,hmask,rfl,rfl,rfl⟩

theorem generateMsg_isSome (self : Spake2 G) (privateTmp : Block 64)
    (h : (E.decompress (if self.roleAlice then M_ENCODED else N_ENCODED)).isSome) :
    ∃ side msg, generateMsg E self privateTmp = some (side,msg) := by
  obtain ⟨mask,hmask⟩ := Option.isSome_iff_exists.mp h
  exact ⟨_,_,Option.map_eq_some_iff.mpr ⟨mask,hmask,rfl⟩⟩

/-- The ephemeral scalar is always right; the password scalar only if the hash needs no adjustment. -/
theorem scalars_right_iff (passwordHash : Block 64) :
    (RightScalar E passwordHash ∧ ∀ (self side : Spake2 G) (r : Block 64) (msg : Block 32),
      generateMsg E self r = some (side,msg) → fromLe side.privateScalar.bytes = 8*(fromLe r.bytes%GROUP_ORDER)) ↔
      8 ∣ fromLe passwordHash.bytes%GROUP_ORDER := by
  rw [rightScalar_iff,and_iff_left]
  intro self side r msg h
  obtain ⟨mask,-,heq⟩ := Option.map_eq_some_iff.mp h
  cases heq
  exact fromLe_ephemeral E r

/-- The mask comes off the message of a peer that used the same password scalar. -/
theorem hashInput_masked (self : Spake2 G) (hgen : self.generated)
    (hmask : E.decompress (if self.roleAlice then N_ENCODED else M_ENCODED) = some mask)
    (hmsg : msg = E.compress (point+mulWide mask self.passwordScalar)) :
    hashInput E self msg = .ok (self.transcript msg (E.compress (mulWide point self.privateScalar))) := by
  subst hmsg
  simp only [hashInput,hgen,if_true,E.decompress_compress,hmask,add_sub_cancel_right]

theorem mulWide_comm (point : G) (x y : Block 32) : mulWide (mulWide point x) y = mulWide (mulWide point y) x := by
  simp only [mulWide_eq,smul_smul,mul_comm]

/-- Two sides with one password hash the same bytes and share the secret. -/
theorem exchange_agrees (password : Bytes) (randomA randomB : Block 64) {alice bob : Spake2 G}
    {a b : Block 32} (ha : generateMsg E (new E true password) randomA = some (alice,a))
    (hb : generateMsg E (new E false password) randomB = some (bob,b)) :
    ∃ hashed, hashInput E alice b = .ok hashed ∧ hashInput E bob a = .ok hashed ∧
      processMsg E alice b = .ok (E.sha512 hashed) ∧ processMsg E bob a = .ok (E.sha512 hashed) := by
  obtain ⟨maskA,x,pointA,hmaskA,hpointA,hmsgA,halice⟩ := generateMsg_cases ha
  obtain ⟨maskB,y,pointB,hmaskB,hpointB,hmsgB,hbob⟩ := generateMsg_cases hb
  have hA : hashInput E alice b = .ok (alice.transcript b (E.compress (mulWide (mulWide E.base y) x))) := by
    have hmsg : b = E.compress (mulWide E.base y+mulWide maskB alice.passwordScalar) := by
      rw [hmsgB,hpointB,halice]
      simp only [new_passwordScalar]
    have h := hashInput_masked alice (by rw [halice]) (by rw [halice]; exact hmaskB) hmsg
    rw [h,halice]
  have hB : hashInput E bob a = .ok (bob.transcript a (E.compress (mulWide (mulWide E.base x) y))) := by
    have hmsg : a = E.compress (mulWide E.base x+mulWide maskA bob.passwordScalar) := by
      rw [hmsgA,hpointA,hbob]
      simp only [new_passwordScalar]
    have h := hashInput_masked bob (by rw [hbob]) (by rw [hbob]; exact hmaskA) hmsg
    rw [h,hbob]
  have hsame : bob.transcript a (E.compress (mulWide (mulWide E.base x) y)) =
      alice.transcript b (E.compress (mulWide (mulWide E.base y) x)) := by
    rw [mulWide_comm,halice,hbob]
    simp only [transcript,new_roleAlice,new_names,new_passwordHash,if_true,Bool.false_eq_true,if_false]
  rw [hsame] at hB
  refine ⟨_,hA,hB,?_,?_⟩
  · rw [processMsg,hA]
    rfl
  · rw [processMsg,hB]
    rfl

/-- The residues modulo 251 in place of the curve. -/
def toySuite : Suite (ZMod 251) where
  base := 1
  compress P := ⟨toLe 32 P.val,toLe_length 32 _⟩
  decompress b := some (fromLe b.bytes : ZMod 251)
  decompress_compress P := by
    have hlt : P.val < 256^32 := P.val_lt.trans (by decide)
    rw [fromLe_toLe hlt,ZMod.natCast_zmod_val]
  reduceWide wide := ⟨toLe 32 (fromLe wide.bytes%GROUP_ORDER),toLe_length 32 _⟩
  reduceWide_eq wide := by
    have h := Nat.mod_lt (fromLe wide.bytes) (show 0 < GROUP_ORDER by decide)
    exact fromLe_toLe (h.trans (by decide))
  sha512 bs := ⟨toLe 64 (fromLe bs),toLe_length 64 _⟩

def wide (n : ℕ) : Block 64 := ⟨toLe 64 n,toLe_length 64 n⟩

theorem hash_one_misadjusted : ¬RightScalar toySuite (wide 1) := by
  rw [rightScalar_iff]
  decide +kernel

theorem exchange_agrees_toy : ∃ alice bob a b hashed,
    generateMsg toySuite (new toySuite true [49,50,51]) (wide (2^300+5)) = some (alice,a) ∧
    generateMsg toySuite (new toySuite false [49,50,51]) (wide 77) = some (bob,b) ∧
    processMsg toySuite alice b = .ok (toySuite.sha512 hashed) ∧
    processMsg toySuite bob a = .ok (toySuite.sha512 hashed) := by
  obtain ⟨alice,a,ha⟩ := generateMsg_isSome (E:=toySuite) (new toySuite true [49,50,51]) (wide (2^300+5)) rfl
  obtain ⟨bob,b,hb⟩ := generateMsg_isSome (E:=toySuite) (new toySuite false [49,50,51]) (wide 77) rfl
  obtain ⟨hashed,-,-,hA,hB⟩ := exchange_agrees [49,50,51] (wide (2^300+5)) (wide 77) ha hb
  exact ⟨alice,bob,a,b,hashed,ha,hb,hA,hB⟩

/-- A side that has sent a message. -/
def sentMsg (roleAlice : Bool) (myMsg : Block 32) : Spake2 (ZMod 251) := { new toySuite roleAlice [49] with myMsg := myMsg }

theorem transcript_determines_toy : (sentMsg true M_ENCODED).names = (sentMsg false N_ENCODED).names ∧
    (sentMsg true M_ENCODED).messages N_ENCODED = (sentMsg false N_ENCODED).messages M_ENCODED := by
  have h := transcript_determines (by decide) (by decide)
    (show (sentMsg true M_ENCODED).transcript N_ENCODED ORDER = (sentMsg false N_ENCODED).transcript M_ENCODED ORDER from rfl)
  exact ⟨h.1,h.2.1⟩

end Spake2

end AdbShare.Pairing
