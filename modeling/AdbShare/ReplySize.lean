import AdbShare.ProxyPaths

/-! How long the replies of the device proxy get. The client drops a connection on which a
frame is announced that is longer than `MAX_RESPONSE_FRAME`; the one reply whose length the
request decides is a listing. -/
namespace AdbShare.ProxyDevice

open List

open Listing (MAX_PATH LISTDIR_PAGE DirName cStr encodeEntry fullPath isDots readPath frameReply readFrame)
open PathText (SLASH)

/-- What a kernel can answer: no more bytes than are asked for, and a directory has each name
once, without slash and NUL. -/
def Plausible : (β : Type) → Sys β → β → Prop
  | _, .pread _ len _, r => ∀ data, r = some data → data.length ≤ len
  | _, .realpath _, r => ∀ resolved, r = some resolved → resolved.length < MAX_PATH
  | _, .readlink _ size, r => ∀ target, r = .ok target → target.length ≤ size
  | _, .opendir _, r => ∀ dir ents, r = .ok (dir,ents) →
    (ents.map DirName.bytes).Nodup ∧ ∀ ent ∈ ents, ent.bytes ≠ [] ∧ SLASH ∉ ent.bytes ∧ 0 ∉ ent.bytes
  | _, _, _ => True

/-- The entries a listing is asked for; the other requests ask for none. -/
def asked (op : UInt8) (args : Bytes) : ℕ :=
  match op.toNat,readPath args with
  | 0x06, some (_,rest) => if rest.length ≥ 8 then u32At rest 4 else LISTDIR_PAGE
  | _, _ => 0

/-- The client reads the frame as it was sent. -/
def Taken (reply : Bytes) : Prop := readFrame reply = .ok (reply.drop 4)

/-- The entry count of a listing, when its status is good. -/
def entryCount (reply : Bytes) : ℕ := if (reply.drop 4).head? = some 0 then fromLe ((reply.drop 5).take 4) else 0

/-- A reply the client takes. -/
def Fits (out : Bytes) : Prop := out.length ≤ MAX_RESPONSE_FRAME

section

variable (errorText : ℕ → Bytes) (op : UInt8) (args : Bytes) (conn : ℕ)

/-- The client takes every reply, and a listing is one page at most. -/
def Bounded : Prop :=
  ∀ reply, (dispatch errorText op args conn).Returns Plausible reply →
    Taken reply ∧ (op = 0x06 → entryCount reply ≤ LISTDIR_PAGE)

end

variable {out : Bytes} {s : UInt8} {n : ℕ}

theorem taken_of_fits (h : Fits out) : Taken (frameReply out) := by
  have hsmall : out.length < 256^4 := lt_of_le_of_lt h (by norm_num [MAX_RESPONSE_FRAME,MAX_RESPONSE])
  have htake : (frameReply out).take 4 = toLe 4 out.length := take_left' (toLe_length _ _)
  have hdrop : (frameReply out).drop 4 = out := drop_left' (toLe_length _ _)
  rw [Taken,readFrame,htake,hdrop,fromLe_toLe hsmall]
  simp [Nat.not_lt.mpr h]

section

variable {args p : Bytes} {k : Bytes → Bytes → Prog Sys Bytes} {msg : String}

/-- A program whose replies the client takes. -/
def Short (p : Prog Sys Bytes) : Prop := p.Ensures Plausible Fits

theorem fits_text {msg : Bytes} (h : msg.length ≤ MAX_RESPONSE) : Fits (s::msg) := Nat.succ_le_succ h

theorem fits_one (s : UInt8) : Fits [s] := fits_text (Nat.zero_le _)

theorem toList_loop_length (bs : ByteArray) (i : ℕ) (r : Bytes) :
    (ByteArray.toList.loop bs i r).length = r.length+(bs.size-i) := by
  fun_induction ByteArray.toList.loop bs i r with
  | case1 i r h ih =>
    rw [ih,length_cons]
    omega
  | case2 i r h =>
    rw [length_reverse]
    omega

theorem text_length_le (h : msg.utf8ByteSize ≤ MAX_RESPONSE) : (text msg).length ≤ MAX_RESPONSE := by
  rw [text,ByteArray.toList,toList_loop_length]
  simpa using h

theorem fits_msg (h : msg.utf8ByteSize ≤ MAX_RESPONSE) : Fits (s::text msg) := fits_text (text_length_le h)

theorem short_outcome (r : Bool) (h : msg.utf8ByteSize ≤ MAX_RESPONSE) : Short (outcome r msg) := by
  cases r
  · exact fits_msg h
  · exact fits_one 0

theorem short_withPath (hk : ∀ p rest, Short (k p rest)) : Short (withPath args k) := by
  rw [withPath]
  cases readPath args with
  | none => exact fits_msg (by decide)
  | some x => exact hk x.1 x.2

theorem short_withCString {k : Bytes → Prog Sys Bytes} (hk : Short (k p)) : Short (withCString p k) := by
  rw [withCString,cstring]
  split_ifs
  · exact fits_msg (by decide)
  · exact hk

theorem short_dispatchOpen (conn : ℕ) : Short (dispatchOpen args conn) := by
  have hopen : (handleOpen args).Ensures Plausible
      fun r => ∀ s msg, r = .error (s,msg) → msg.length ≤ MAX_RESPONSE := by
    rw [handleOpen]
    split_ifs
    all_goals try
      rintro s msg ⟨⟩
      exact text_length_le (by decide)
    intro r _
    cases r with
    | error errno =>
      rintro s msg ⟨⟩
      exact text_length_le (by decide)
    | ok fd => rintro s msg ⟨⟩
  refine hopen.bind ?_
  intro r hr
  cases r with
  | error e => exact fits_text (hr e.1 e.2 rfl)
  | ok fd =>
    intro _ _
    exact fits_text (by rw [toLe_length]; decide)

theorem short_dispatchClose : Short (dispatchClose args) := by
  rw [dispatchClose]
  split_ifs
  · exact fits_msg (by decide)
  intro r _
  cases r
  · exact fits_msg (by decide)
  · exact fun _ _ => fits_one 0

/-- A read of exactly `MAX_RESPONSE` bytes is the longest reply there is apart from listings. -/
theorem short_dispatchRead : Short (dispatchRead args) := by
  rw [dispatchRead]
  split_ifs with hshort hbig
  · exact fits_msg (by decide)
  · exact fits_msg (by decide)
  intro r hr
  cases r with
  | none => exact fits_msg (by decide)
  | some data => exact fits_text ((hr data rfl).trans (Nat.not_lt.mp hbig))

theorem short_dispatchWrite : Short (dispatchWrite args) := by
  rw [dispatchWrite]
  split_ifs
  · exact fits_msg (by decide)
  · exact fits_msg (by decide)
  intro r _
  cases r with
  | none => exact fits_msg (by decide)
  | some n =>
    dsimp only [Prog.bind]
    split_ifs
    · exact fits_msg (by decide)
    · exact fits_one 0

theorem encodeStat_length (st : Listing.LibcStat) : (Listing.encodeStat st).length = 60 := by
  rw [Listing.encodeStat_eq,Stat.encode_length]

theorem short_dispatchFstat : Short (dispatchFstat args) := by
  rw [dispatchFstat]
  split_ifs
  · exact fits_msg (by decide)
  intro r _
  cases r with
  | none => exact fits_msg (by decide)
  | some st => exact fits_text (by rw [encodeStat_length]; decide)

theorem short_dispatchMkdir : Short (dispatchMkdir args) := by
  refine short_withPath ?_
  intro p rest
  split_ifs
  · exact fits_msg (by decide)
  · exact short_withCString fun r _ => short_outcome r (by decide)

theorem short_dispatchUnlink : Short (dispatchUnlink args) :=
  short_withPath fun _ _ => short_withCString fun r _ => short_outcome r (by decide)

theorem short_dispatchRmdir : Short (dispatchRmdir args) :=
  short_withPath fun _ _ => short_withCString fun r _ => short_outcome r (by decide)

theorem short_dispatchRename : Short (dispatchRename args) :=
  short_withPath fun _ _ => short_withPath fun _ _ => short_withCString
    (short_withCString fun r _ => short_outcome r (by decide))

theorem short_dispatchTruncate : Short (dispatchTruncate args) := by
  refine short_withPath ?_
  intro p rest
  split_ifs
  · exact fits_msg (by decide)
  · exact short_withCString fun r _ => short_outcome r (by decide)

theorem short_dispatchRealpath : Short (dispatchRealpath args) := by
  refine short_withPath fun _ _ => short_withCString ?_
  intro r hr
  cases r with
  | none => exact fits_msg (by decide)
  | some resolved =>
    have hlen := hr resolved rfl
    refine fits_text ?_
    rw [length_append,toLe_length]
    exact (Nat.add_le_add_left hlen.le 4).trans (by decide)

theorem short_dispatchSymlink : Short (dispatchSymlink args) :=
  short_withPath fun _ _ => short_withPath fun _ _ => short_withCString
    (short_withCString fun r _ => short_outcome r (by decide))

theorem short_dispatchUtime : Short (dispatchUtime args) := by
  refine short_withPath ?_
  intro p rest
  split_ifs
  · exact fits_msg (by decide)
  · exact short_withCString fun r _ => short_outcome r (by decide)

theorem short_dispatchStatvfs : Short (dispatchStatvfs args) := by
  refine short_withPath fun _ _ => short_withCString ?_
  intro r _
  cases r with
  | none => exact fits_msg (by decide)
  | some v => exact fits_text (by simp [MAX_RESPONSE])

section

variable {errorText : ℕ → Bytes} (htext : ∀ errno, (errorText errno).length ≤ MAX_RESPONSE) {β : Type} {a : Sys β}
  {r : Except (UInt8 × Bytes) Unit}
include htext

theorem short_dispatchStat : Short (dispatchStat errorText args) := by
  refine short_withPath ?_
  intro p rest r _
  cases r with
  | error errno => exact fits_text (htext errno)
  | ok st => exact fits_text (by rw [encodeStat_length]; decide)

theorem short_dispatchLstat : Short (dispatchLstat errorText args) := by
  refine short_withPath ?_
  intro p rest r _
  cases r with
  | error errno => exact fits_text (htext errno)
  | ok st => exact fits_text (by rw [encodeStat_length]; decide)

theorem short_dispatchReadlink : Short (dispatchReadlink errorText args) := by
  refine short_withPath fun _ _ => short_withCString ?_
  intro r hr
  cases r with
  | error errno =>
    dsimp only [Prog.bind]
    split_ifs
    · exact fits_text (htext errno)
    · exact fits_text (htext errno)
  | ok target =>
    have hlen := hr target rfl
    refine fits_text ?_
    rw [length_append,toLe_length]
    exact (Nat.add_le_add_left hlen 4).trans (by decide)

/-- An error of a copy carries a short text. -/
def Tells (r : Except (UInt8 × Bytes) Unit) : Prop := ∀ s msg, r = .error (s,msg) → msg.length ≤ MAX_RESPONSE

omit htext in
theorem tells_ok : Tells (.ok ()) := nofun

omit htext in
theorem tells_error {msg : Bytes} (h : msg.length ≤ MAX_RESPONSE) : Tells (.error (s,msg)) := by
  rintro _ _ ⟨⟩
  exact h

omit htext in
/-- A step that cannot fail before the result. -/
theorem ensures_after (h : Tells r) : (Prog.act a fun _ => Prog.ret r).Ensures Plausible Tells := fun _ _ => h

theorem copyInto_tells (source size destination : ℕ) :
    (copyInto errorText source size destination).Ensures Plausible Tells := by
  intro copied _ _ _
  cases copied with
  | error errno => exact tells_error (htext errno)
  | ok n =>
    dsimp only [Prog.bind]
    split_ifs
    · exact tells_error (text_length_le (by decide))
    intro synced _
    cases synced with
    | error errno => exact tells_error (htext errno)
    | ok u => exact tells_ok

theorem copyIntoOwned_tells (source size destination parent : ℕ) (name : Bytes) :
    (copyIntoOwned errorText source size destination parent name).Ensures Plausible Tells := by
  refine (copyInto_tells htext source size destination).bind ?_
  intro r hr
  cases r with
  | ok u => exact tells_ok
  | error e =>
    have hremove : (removeOwnedPartial parent name destination).Ensures Plausible fun _ => True := by
      intro owned _
      cases owned with
      | none => trivial
      | some owned =>
        intro current _
        cases current with
        | none => trivial
        | some current =>
          dsimp only [Prog.bind]
          split_ifs
          · exact fun _ _ => trivial
          · trivial
    exact hremove.bind fun _ _ => hr

theorem copyOpened_tells (source size : ℕ) (dst : Bytes) :
    (copyOpened errorText source size dst).Ensures Plausible Tells := by
  rw [copyOpened]
  split_ifs
  · exact ensures_after (tells_error (text_length_le (by decide)))
  intro parent _
  cases parent with
  | error errno => exact ensures_after (tells_error (htext errno))
  | ok parent =>
    intro destination _
    cases destination with
    | error errno => exact fun _ _ _ _ => tells_error (htext errno)
    | ok destination =>
      refine (copyIntoOwned_tells htext source size destination parent _).bind ?_
      intro r hr
      exact fun _ _ _ _ => hr

theorem doCopyFile_tells (src dst : Bytes) : (doCopyFile errorText src dst).Ensures Plausible Tells := by
  rw [doCopyFile]
  split_ifs
  · exact tells_error (text_length_le (by decide))
  intro source _
  cases source with
  | error errno => exact tells_error (htext errno)
  | ok source =>
    intro metadata _
    cases metadata with
    | error errno => exact ensures_after (tells_error (htext errno))
    | ok metadata =>
      dsimp only [Prog.bind]
      split_ifs
      · exact copyOpened_tells htext ..
      · exact ensures_after (tells_error (text_length_le (by decide)))
      · exact ensures_after (tells_error (text_length_le (by decide)))

theorem short_dispatchCopy : Short (dispatchCopy errorText args) := by
  rw [dispatchCopy]
  cases readTwoPaths args with
  | none => exact fits_msg (by decide)
  | some x =>
    refine (doCopyFile_tells htext x.1 x.2).bind ?_
    intro r hr
    cases r with
    | ok u => exact fits_one 0
    | error e => exact fits_text (hr e.1 e.2 rfl)

end

end

section

/-- The outcome of a listing with a limit: so many entries of at most 319 bytes each, or an
error. -/
def Listed (limit : ℕ) (out : Bytes) : Prop :=
  (∃ n body, out = 0::(toLe 4 n++body) ∧ n ≤ limit ∧ body.length ≤ 319*n) ∨
    ∃ s msg, out = s::msg ∧ s ≠ 0 ∧ msg.length ≤ MAX_RESPONSE

/-- The entries that fit into one reply whatever their names are. -/
def FULL_PAGE : ℕ := (MAX_RESPONSE-4)/319

variable {limit : ℕ}

theorem Listed.fits (h : Listed limit out) (hl : limit ≤ FULL_PAGE) : Fits out := by
  obtain ⟨n,body,rfl,hn,hbody⟩ | ⟨s,msg,rfl,_,hmsg⟩ := h
  · refine fits_text ?_
    rw [length_append,toLe_length]
    have hfull : FULL_PAGE = 26296 := by decide
    have hmax : MAX_RESPONSE = 8388608 := by decide
    omega
  · exact fits_text hmsg

theorem drop_frameReply (out : Bytes) : (frameReply out).drop 4 = out := drop_left' (toLe_length _ _)

theorem drop_frameReply_cons (s : UInt8) (data : Bytes) : (frameReply (s::data)).drop 5 = data := by
  rw [← drop_drop (i := 1) (j := 4),drop_frameReply]
  rfl

theorem entryCount_good (body : Bytes) (hn : n < 256^4) : entryCount (frameReply (0::(toLe 4 n++body))) = n := by
  rw [entryCount,drop_frameReply,drop_frameReply_cons,take_left' (toLe_length _ _),fromLe_toLe hn]
  rfl

theorem Listed.count (h : Listed limit out) (hl : limit < 256^4) : entryCount (frameReply out) ≤ limit := by
  obtain ⟨n,body,rfl,hn,_⟩ | ⟨s,msg,rfl,hs,_⟩ := h
  · rw [entryCount_good body (hn.trans_lt hl)]
    exact hn
  · rw [entryCount,drop_frameReply,if_neg (by simpa using hs)]
    exact Nat.zero_le _

/-- The loop stops at its limit, and every entry is at most 319 bytes long. -/
theorem listdirLoop_ensures (path : Bytes) (offset maxEntries : ℕ) (ents : List DirName) (seen emitted : ℕ) (body : Bytes)
    (hem : emitted < maxEntries) (hbody : body.length ≤ 319*emitted) :
    (listdirLoop path offset maxEntries ents seen emitted body).Ensures Plausible
      fun page => page.1 ≤ maxEntries ∧ page.2.length ≤ 319*page.1 := by
  induction ents generalizing seen emitted body with
  | nil => exact ⟨hem.le,hbody⟩
  | cons ent ents ih =>
    rw [listdirLoop]
    by_cases hdots : isDots ent.bytes
    · rw [if_pos hdots]
      exact ih seen emitted body hem hbody
    rw [if_neg hdots]
    by_cases hskip : seen+1 ≤ offset
    · rw [if_pos hskip]
      exact ih (seen+1) emitted body hem hbody
    rw [if_neg hskip]
    intro r _
    cases r with
    | error errno => exact ih (seen+1) emitted body hem hbody
    | ok st =>
      have hmore : (body++encodeEntry ent.bytes st).length ≤ 319*(emitted+1) := by
        have hname := ent.length_le
        have hentry : (encodeEntry ent.bytes st).length = ent.bytes.length+64 := Listing.encodeEntry_length (ent,st)
        rw [length_append]
        omega
      split_ifs with hlast
      · exact ⟨hem,hmore⟩
      · exact ih (seen+1) (emitted+1) _ (by omega) hmore

variable {errorText : ℕ → Bytes} {op : UInt8} {args : Bytes} {conn : ℕ}

theorem statError_ne_zero (errorText : ℕ → Bytes) (errno : ℕ) : (statError errorText errno).1 ≠ 0 := by
  dsimp only [statError]
  split_ifs <;> decide

section

variable (htext : ∀ errno, (errorText errno).length ≤ MAX_RESPONSE) {reply : Bytes}
include htext

theorem doListdir_listed (path : Bytes) (offset maxEntries : ℕ)
    (hmax : 0 < maxEntries) : (doListdir errorText path offset maxEntries).Ensures Plausible
      fun r => (report r).Ensures Plausible (Listed maxEntries) := by
  intro r _
  cases r with
  | error errno => exact .inr ⟨_,_,rfl,statError_ne_zero errorText errno,htext errno⟩
  | ok found =>
    refine (listdirLoop_ensures path offset maxEntries found.2 0 0 [] hmax (Nat.zero_le _)).bind ?_
    intro page hpage _ _
    exact .inl ⟨page.1,page.2,rfl,hpage.1,hpage.2⟩

omit htext in
theorem asked_listDir (args : Bytes) : asked 0x06 args = match readPath args with
    | some (_,rest) => if rest.length ≥ 8 then u32At rest 4 else LISTDIR_PAGE
    | none => 0 := by
  rw [asked]
  cases readPath args <;> rfl

omit htext in
theorem asked_other (hop : op ≠ 0x06) : asked op args = 0 := by
  have hnat : op.toNat ≠ 6 := fun h => hop (UInt8.toNat_inj.mp h)
  rw [asked]
  split
  · contradiction
  · rfl

theorem dispatchListDir_listed :
    (dispatchListDir errorText args).Ensures Plausible (Listed (max (asked 0x06 args) 1)) := by
  rw [dispatchListDir,withPath,asked_listDir]
  cases readPath args with
  | none => exact .inr ⟨_,_,rfl,by decide,text_length_le (by decide)⟩
  | some x =>
    obtain ⟨path,rest⟩ := x
    dsimp only
    have hwindow : (if rest.length ≥ 8 then (u32At rest 0,u32At rest 4) else (0,LISTDIR_PAGE)).2 =
        if rest.length ≥ 8 then u32At rest 4 else LISTDIR_PAGE := by
      split_ifs <;> rfl
    rw [← hwindow]
    generalize (if rest.length ≥ 8 then (u32At rest 0,u32At rest 4) else (0,LISTDIR_PAGE)) = window
    refine (doListdir_listed htext path window.1 (max window.2 1) (by omega)).bind ?_
    exact fun r hr => hr

theorem serve_short (hop : op ≠ 0x06) : Short (serve errorText op args conn) := by
  have hnat : op.toNat ≠ 6 := fun h => hop (UInt8.toNat_inj.mp h)
  rw [serve]
  split
  · exact short_dispatchOpen conn
  · exact short_dispatchClose
  · exact short_dispatchRead
  · exact short_dispatchWrite
  · exact short_dispatchStat htext
  · exact short_dispatchLstat htext
  · exact short_dispatchFstat
  · contradiction
  · exact short_dispatchMkdir
  · exact short_dispatchUnlink
  · exact short_dispatchRmdir
  · exact short_dispatchRename
  · exact short_dispatchTruncate
  · exact short_dispatchRealpath
  · exact short_dispatchReadlink htext
  · exact short_dispatchSymlink
  · exact short_dispatchUtime
  · exact short_dispatchStatvfs
  · exact short_dispatchCopy htext
  · exact fits_msg (by decide)

omit htext in
theorem dispatch_returns (h : (dispatch errorText op args conn).Returns Plausible reply) :
    ∃ out, (serve errorText op args conn).Returns Plausible out ∧ reply = frameReply out :=
  Prog.returns_bind_iff.mp h

/-- What every reply to a request looks like. -/
theorem serve_listed (h : (serve errorText op args conn).Returns Plausible out) :
    op ≠ 0x06 ∧ Fits out ∨ op = 0x06 ∧ Listed (max (asked op args) 1) out := by
  by_cases hop : op = 0x06
  · subst hop
    exact .inr ⟨rfl,(dispatchListDir_listed htext).returns h⟩
  · exact .inl ⟨hop,(serve_short htext hop).returns h⟩

end

end

section

open Listing (digit sampleStat lstatEntry visible pageBody)

/-- A number in `w` digits. -/
def digits : ℕ → ℕ → Bytes
  | 0, _ => []
  | w+1, i => digit i::digits w (i/64)

theorem digits_length (w i : ℕ) : (digits w i).length = w := by
  induction w generalizing i with
  | zero => rfl
  | succ w ih => rw [digits,length_cons,ih]

theorem toNat_digit (i : ℕ) : (digit i).toNat = 48+i%64 := by
  rw [digit,UInt8.toNat_ofNat']
  omega

variable {w i j k : ℕ} {b op : UInt8} {p : List (DirName × Listing.LibcStat)} {path rest : Bytes}

theorem le_of_mem_digits (h : b ∈ digits w i) : 48 ≤ b.toNat := by
  induction w generalizing i with
  | zero => exact absurd h not_mem_nil
  | succ w ih =>
    obtain rfl | h := mem_cons.mp h
    · rw [toNat_digit]
      omega
    · exact ih h

theorem digits_inj (h : digits w i = digits w j) (hi : i < 64^w) (hj : j < 64^w) : i = j := by
  induction w generalizing i j with
  | zero => omega
  | succ w ih =>
    obtain ⟨hd,ht⟩ := List.cons.inj h
    have hmod : 48+i%64 = 48+j%64 := by
      rw [← toNat_digit,← toNat_digit,hd]
    have hdiv := ih ht (Nat.div_lt_of_lt_mul (by omega)) (Nat.div_lt_of_lt_mul (by omega))
    omega

/-- A name as long as names get. -/
def longName (i : ℕ) : DirName := ⟨digits 255 i,(digits_length 255 i).le⟩

def crowded (n : ℕ) : List DirName := (List.range n).map longName

/-- A device on which every directory has so many long names. -/
def crowdedDevice (errorText : ℕ → Bytes) (n : ℕ) : Listing.Device where
  opendir _ := .ok (crowded n)
  lstat _ := .ok sampleStat
  errorText := errorText

theorem visible_crowded (n : ℕ) : visible (crowded n) = crowded n := by
  refine filter_eq_self.mpr ?_
  intro ent hent
  obtain ⟨i,_,rfl⟩ := mem_map.mp hent
  have hlen : (longName i).bytes.length = 255 := digits_length 255 i
  have hdot : (longName i).bytes ≠ Listing.dot := fun h => absurd (h ▸ hlen) (by decide)
  have hdotdot : (longName i).bytes ≠ Listing.dotdot := fun h => absurd (h ▸ hlen) (by decide)
  simp [isDots,hdot,hdotdot]

theorem plausible_crowded (hn : n ≤ 64^255) :
    ((crowded n).map DirName.bytes).Nodup ∧ ∀ ent ∈ crowded n, ent.bytes ≠ [] ∧ SLASH ∉ ent.bytes ∧ 0 ∉ ent.bytes := by
  constructor
  · rw [crowded,map_map]
    refine List.Nodup.map_on ?_ nodup_range
    intro i hi j hj h
    rw [mem_range] at hi hj
    exact digits_inj h (by omega) (by omega)
  · intro ent hent
    obtain ⟨i,_,rfl⟩ := mem_map.mp hent
    refine ⟨?_,fun h => ?_,fun h => ?_⟩
    · exact ne_nil_of_length_pos (by rw [show (longName i).bytes.length = 255 from digits_length 255 i]; decide)
    · exact absurd (le_of_mem_digits h) (by decide)
    · exact absurd (le_of_mem_digits h) (by decide)

theorem plausible_answer (errorText : ℕ → Bytes) (hn : n ≤ 64^255) (β : Type) (a : Sys β) (s : Unit) (b : β)
    (t : Unit) (h : answer (crowdedDevice errorText n) β a s = some (b,t)) : Plausible β a b := by
  cases a with
  | opendir p =>
    obtain ⟨rfl,-⟩ := Prod.mk.inj (Option.some.inj h)
    rintro dir ents ⟨⟩
    exact plausible_crowded hn
  | lstat p => trivial
  | closedir dir => trivial
  | _ => cases h

theorem pageBody_length (h : ∀ q ∈ p, q.1.bytes.length = 255) : (pageBody p).length = 319*p.length := by
  induction p with
  | nil => rfl
  | cons q p ih =>
    have hq := h q mem_cons_self
    have hentry := Listing.encodeEntry_length q
    have hrest := ih fun q hq => h q (mem_cons_of_mem _ hq)
    simp only [pageBody,flatMap_cons,length_append,length_cons] at *
    omega

theorem u32At_lt (args : Bytes) (i : ℕ) : u32At args i < 256^4 :=
  lt_of_lt_of_le (fromLe_lt _) (Nat.pow_le_pow_right (by decide) (length_take_le _ _))

/-- A crowded directory fills a listing to its limit. -/
theorem dispatchListDir_crowded (errorText : ℕ → Bytes) {args : Bytes} (hread : readPath args = some (path,rest))
    (hrest : rest.length ≥ 8) (hmax : k ≤ u32At rest 4) :
    ∃ body, Listing.dispatchListDir (crowdedDevice errorText (u32At rest 0+k)) args = 0::(toLe 4 k++body) ∧
      body.length = 319*k := by
  set dev := crowdedDevice errorText (u32At rest 0+k)
  have hstat : lstatEntry dev path = fun ent => some (ent,sampleStat) := rfl
  have hlen : ((crowded (u32At rest 0+k)).drop (u32At rest 0)).length = k := by
    simp [crowded]
  have hpage : (Paging.served (lstatEntry dev path) (visible (crowded (u32At rest 0+k))) (u32At rest 0)).take
      (max (u32At rest 4) 1) = ((crowded (u32At rest 0+k)).drop (u32At rest 0)).map fun ent => (ent,sampleStat) := by
    rw [visible_crowded,Paging.served,hstat,filterMap_eq_map']
    refine take_of_length_le ?_
    rw [length_map,hlen]
    omega
  have hloop := Listing.listdirLoop_eq dev path (u32At rest 0) (max (u32At rest 4) 1) (crowded (u32At rest 0+k)) 0 0 [] (by omega)
  simp only [Nat.sub_zero,hpage,length_map,hlen,Nat.zero_add,nil_append] at hloop
  have hserve : Listing.dispatchListDir dev args = 0::(toLe 4 (Listing.listdirLoop dev path (u32At rest 0)
      (max (u32At rest 4) 1) (crowded (u32At rest 0+k)) 0 0 []).1++(Listing.listdirLoop dev path (u32At rest 0)
        (max (u32At rest 4) 1) (crowded (u32At rest 0+k)) 0 0 []).2) := by
    rw [Listing.dispatchListDir,hread]
    dsimp only
    rw [if_pos hrest]
    rfl
  rw [hloop] at hserve
  refine ⟨_,hserve,?_⟩
  rw [pageBody_length,length_map,hlen]
  intro q hq
  obtain ⟨ent,hent,rfl⟩ := mem_map.mp hq
  obtain ⟨i,_,rfl⟩ := mem_map.mp (mem_of_mem_drop hent)
  exact digits_length 255 i

theorem not_taken (hlong : ¬Fits out) (hsmall : out.length < 256^4) : ¬Taken (frameReply out) := by
  have htake : (frameReply out).take 4 = toLe 4 out.length := take_left' (toLe_length _ _)
  rw [Taken,readFrame,htake,fromLe_toLe hsmall]
  simp [Nat.not_le.mp hlong]

variable {args : Bytes}

theorem asked_cases (h : n < asked op args) (hn : LISTDIR_PAGE ≤ n) :
    op = 0x06 ∧ ∃ path rest, readPath args = some (path,rest) ∧ rest.length ≥ 8 ∧ asked op args = u32At rest 4 := by
  by_cases hop : op = 0x06
  · subst hop
    rw [asked_listDir] at h ⊢
    cases hread : readPath args with
    | none =>
      rw [hread] at h
      exact absurd h (Nat.not_lt_zero n)
    | some x =>
      obtain ⟨path,rest⟩ := x
      rw [hread] at h
      dsimp only at h ⊢
      split_ifs at h ⊢ with hrest
      · exact ⟨rfl,path,rest,rfl,hrest,rfl⟩
      · omega
  · rw [asked_other hop] at h
    exact absurd h (Nat.not_lt_zero n)

/-- A listing of `k` entries as long as entries get, when that many are asked for. -/
theorem returns_full (errorText : ℕ → Bytes) (hk : LISTDIR_PAGE < k) (hask : k ≤ asked 0x06 args)
    (conn : ℕ) : ∃ body, (dispatch errorText 0x06 args conn).Returns Plausible (frameReply (0::(toLe 4 k++body))) ∧
      body.length = 319*k := by
  obtain ⟨_,path,rest,hread,hrest,heq⟩ := asked_cases (hk.trans_le hask) le_rfl
  rw [heq] at hask
  obtain ⟨body,hserve,hbody⟩ := dispatchListDir_crowded errorText hread hrest hask
  have hoff : u32At rest 0 < 256^4 := u32At_lt rest 0
  have hmany : u32At rest 4 < 256^4 := u32At_lt rest 4
  refine ⟨body,?_,hbody⟩
  rw [← hserve]
  exact Prog.play_returns (plausible_answer errorText (by omega)) (play_dispatchListDir _ args conn)

theorem exists_not_taken (errorText : ℕ → Bytes) (hask : FULL_PAGE < asked 0x06 args) (conn : ℕ) :
    ∃ reply, (dispatch errorText 0x06 args conn).Returns Plausible reply ∧ ¬Taken reply := by
  obtain ⟨body,hreply,hbody⟩ := returns_full errorText (by decide) hask conn
  have hlen : (0::(toLe 4 (FULL_PAGE+1)++body)).length = 8388748 := by
    rw [length_cons,length_append,toLe_length,hbody]
    decide
  refine ⟨_,hreply,not_taken ?_ ?_⟩
  · rw [Fits,hlen]
    decide
  · rw [hlen]
    decide

/-- The arguments of a listing of the root from its first entry on. -/
def listRoot (maxEntries : ℕ) : Bytes := toLe 4 1++([SLASH]++(toLe 4 0++toLe 4 maxEntries))

/-- All entries of the root at once, when it has many of them with long names. -/
theorem listing_overfills_frame :
    ∃ reply, (dispatch (fun _ => []) 0x06 (listRoot (2^32-1)) 0).Returns Plausible reply ∧ ¬Taken reply :=
  exists_not_taken _ (by decide) 0

end

section

variable {errorText : ℕ → Bytes} (htext : ∀ errno, (errorText errno).length ≤ MAX_RESPONSE) (op : UInt8) (args : Bytes)
  (conn : ℕ)
include htext

/-- The client takes all replies exactly if no listing is asked for that overfills a frame. -/
theorem taken_iff : (∀ reply, (dispatch errorText op args conn).Returns Plausible reply → Taken reply) ↔
    asked op args ≤ FULL_PAGE := by
  constructor
  · intro h
    by_contra hask
    obtain ⟨rfl,-⟩ := asked_cases (Nat.not_le.mp hask) (by decide)
    obtain ⟨reply,hreply,hlong⟩ := exists_not_taken errorText (Nat.not_le.mp hask) conn
    exact hlong (h reply hreply)
  · intro hask reply hreply
    obtain ⟨out,hout,rfl⟩ := dispatch_returns hreply
    obtain ⟨_,hfits⟩ | ⟨_,hlisted⟩ := serve_listed htext hout
    · exact taken_of_fits hfits
    · exact taken_of_fits (hlisted.fits (max_le hask (by decide)))

/-- Every request is answered within a frame and every listing within a page exactly if no
listing of more than a page is asked for. -/
theorem bounded_iff : Bounded errorText op args conn ↔ asked op args ≤ LISTDIR_PAGE := by
  constructor
  · intro h
    by_contra hask
    obtain ⟨rfl,-⟩ := asked_cases (Nat.not_le.mp hask) le_rfl
    obtain ⟨body,hreply,_⟩ := returns_full errorText (by decide) (Nat.not_le.mp hask) conn
    have hcount := (h _ hreply).2 rfl
    rw [entryCount_good body (by decide)] at hcount
    exact absurd hcount (by decide)
  · intro hask reply hreply
    refine ⟨(taken_iff htext op args conn).mpr (hask.trans (by decide)) reply hreply,?_⟩
    intro hop
    obtain ⟨out,hout,rfl⟩ := dispatch_returns hreply
    obtain ⟨hne,_⟩ | ⟨_,hlisted⟩ := serve_listed htext hout
    · exact absurd hop hne
    · have hmax : max (asked op args) 1 ≤ LISTDIR_PAGE := max_le hask (by decide)
      exact (hlisted.count (hmax.trans_lt (by decide))).trans hmax

end

theorem bounded_one_page : Bounded (fun _ => [69]) 0x06 (listRoot LISTDIR_PAGE) 0 :=
  (bounded_iff (fun _ => by decide) 0x06 (listRoot LISTDIR_PAGE) 0).mpr (by decide)

end AdbShare.ProxyDevice
