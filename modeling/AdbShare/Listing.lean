import AdbShare.Wire
import AdbShare.Paging

/-! Directory listings: the device's `do_listdir`, the host's page parser and the host
loop that asks for page after page. The exchange of one request and its reply is taken
as undisturbed here; timeouts and lost connections belong to the connection pool. -/
namespace AdbShare.Listing

open List Paging

def MAX_PATH : ℕ := 4096
/-- Entries per page; the host and the device use the same number. -/
def LISTDIR_PAGE : ℕ := 16384

/-- `d_name` of a `dirent`: `NAME_MAX` bounds it. -/
structure DirName where
  bytes : Bytes
  length_le : bytes.length ≤ 255
  deriving DecidableEq

/-- `struct stat` of the 64-bit Android target. -/
structure LibcStat where
  st_mode : UInt32
  st_size : Int64
  st_mtime : Int64
  st_atime : Int64
  st_ctime : Int64
  st_uid : UInt32
  st_gid : UInt32
  st_nlink : UInt32
  st_blksize : Int32
  st_blocks : Int64

/-- What the proxy asks of the kernel; unchanged while a directory is listed. Paths
are C strings, errors are `errno` values. -/
structure Device where
  opendir : Bytes → Except ℕ (List DirName)
  lstat : Bytes → Except ℕ LibcStat
  errorText : ℕ → Bytes

/-- The C string a NUL-terminated buffer denotes. -/
def cStr (path : Bytes) : Bytes := path.takeWhile (· ≠ 0)

def encodeStat (st : LibcStat) : Bytes :=
  toLe 4 st.st_mode.toNat ++ (toLe 8 st.st_size.toUInt64.toNat ++
    (toLe 8 st.st_mtime.toUInt64.toNat ++ (toLe 8 st.st_atime.toUInt64.toNat ++
      (toLe 8 st.st_ctime.toUInt64.toNat ++ (toLe 4 st.st_uid.toNat ++ (toLe 4 st.st_gid.toNat ++
        (toLe 4 st.st_nlink.toNat ++ (toLe 4 st.st_blksize.toUInt32.toNat ++
          toLe 8 st.st_blocks.toUInt64.toNat))))))))

/-- ENOENT, EACCES and EPERM, ENOTDIR, ELOOP, ENAMETOOLONG; the rest is an I/O error. -/
def statError (dev : Device) (errno : ℕ) : UInt8 × Bytes :=
  (if errno = 2 then 0x01
    else if errno = 13 ∨ errno = 1 then 0x02
    else if errno = 20 then 0x04
    else if errno = 40 then 0x08
    else if errno = 36 then 0x0A
    else 0x07,dev.errorText errno)

def dot : Bytes := [46]
def dotdot : Bytes := [46,46]
def isDots (name : Bytes) : Bool := name == dot || name == dotdot

/-- `path`, a separator unless it already ends in one, and the entry's name. -/
def fullPath (path name : Bytes) : Bytes :=
  (if path.getLast? = some 47 then path else path++[47])++name

def encodeEntry (name : Bytes) (st : LibcStat) : Bytes :=
  toLe 4 name.length ++ (name ++ encodeStat st)

/-- The readdir loop of `do_listdir`: entries emitted and the page body. A name that
cannot be lstat-ed counts as seen and stays out of the page. -/
def listdirLoop (dev : Device) (path : Bytes) (offset maxEntries : ℕ) :
    List DirName → ℕ → ℕ → Bytes → ℕ × Bytes
  | [], _, emitted, body => (emitted,body)
  | ent::ents, seen, emitted, body =>
    if isDots ent.bytes then
      listdirLoop dev path offset maxEntries ents seen emitted body
    else if seen+1 ≤ offset then
      listdirLoop dev path offset maxEntries ents (seen+1) emitted body
    else match dev.lstat (cStr (fullPath path ent.bytes)) with
      | .error _ => listdirLoop dev path offset maxEntries ents (seen+1) emitted body
      | .ok st =>
        if emitted+1 ≥ maxEntries then (emitted+1,body++encodeEntry ent.bytes st)
        else listdirLoop dev path offset maxEntries ents (seen+1) (emitted+1)
          (body++encodeEntry ent.bytes st)

def doListdir (dev : Device) (path : Bytes) (offset maxEntries : ℕ) :
    Except (UInt8 × Bytes) Bytes :=
  match dev.opendir (cStr path) with
  | .error errno => .error (statError dev errno)
  | .ok ents =>
    let page := listdirLoop dev path offset maxEntries ents 0 0 []
    .ok (toLe 4 page.1++page.2)

def readPath (args : Bytes) : Option (Bytes × Bytes) :=
  if args.length < 4 then none
  else
    let len := fromLe (args.take 4)
    if len > MAX_PATH ∨ args.length < 4+len then none
    else some ((args.drop 4).take len,args.drop (4+len))

/-- The `ListDir` arm of `dispatch`: status byte and payload. A short argument block
comes from an older host and gets one page. -/
def dispatchListDir (dev : Device) (args : Bytes) : Bytes :=
  match readPath args with
  | none => 0x08::"bad path".toUTF8.toList
  | some (path,rest) =>
    let window := if rest.length ≥ 8
      then (fromLe (rest.take 4),fromLe ((rest.drop 4).take 4)) else (0,LISTDIR_PAGE)
    match doListdir dev path window.1 (max window.2 1) with
    | .ok data => 0::data
    | .error (s,msg) => s::msg

/-- Replies travel as `[len u32][status u8][data]`. -/
def frameReply (out : Bytes) : Bytes := toLe 4 out.length++out

/-- The reader task cuts one frame, unless its length is over the ceiling. -/
def readFrame (frame : Bytes) : Except ProxyError Bytes :=
  let len := fromLe (frame.take 4)
  if len > MAX_RESPONSE_FRAME then .error .closed else .ok ((frame.drop 4).take len)

/-- The tail of `ProxyConn::request`: a status byte, then the data. -/
def openReply : Bytes → Except ProxyError Bytes
  | [] => .error (.invalid "empty response frame")
  | status::data =>
    if Status.fromU8 status = .ok then .ok data
    else .error (.status (Status.fromU8 status) (Utf8.fromUtf8Lossy data))

def request (serve : Bytes → Bytes) (args : Bytes) : Except ProxyError Bytes :=
  if args.length > MAX_REQUEST then .error (.tooLarge args.length)
  else (readFrame (frameReply (serve args))).bind openReply

/-- The entry loop of the page parser, on what is left of the page. Each round takes
64 bytes or more, so a fuel of the page's length never runs out. -/
def parseDirEntriesGo : ℕ → Bytes → List DirEntry → Except ProxyError (List DirEntry)
  | 0, _, entries => .ok entries
  | fuel+1, data, entries =>
    if data.isEmpty then .ok entries
    else if data.length < 4 then .error (.invalid "dir entry name len")
    else
      let nameLen := fromLe (data.take 4)
      let data := data.drop 4
      if data.length < nameLen+60 then .error (.invalid "dir entry payload")
      else
        let name := Utf8.fromUtf8Lossy (data.take nameLen)
        match Stat.decode ((data.drop nameLen).take 60) with
        | none => .error (.invalid "dir entry stat")
        | some stat =>
          parseDirEntriesGo fuel (data.drop (nameLen+60)) (entries++[⟨name,stat⟩])

def parseDirEntries (data : Bytes) (expect : ℕ) : Except ProxyError (List DirEntry) :=
  (parseDirEntriesGo data.length data []).bind fun entries =>
    if entries.length ≠ expect then
      .error (.invalid s!"listdir page: header said {expect} entries, buffer held {entries.length}")
    else .ok entries

def parseDirPage (data : Bytes) : Except ProxyError (List DirEntry) :=
  if data.length < 4 then .error (.invalid "listdir count")
  else parseDirEntries (data.drop 4) (fromLe (data.take 4))

def listdirPage (dev : Device) (path : Bytes) (offset : UInt32) :
    Except ProxyError (List DirEntry) :=
  (request (dispatchListDir dev) (toLe 4 path.length ++ (path ++
    (toLe 4 offset.toNat ++ toLe 4 LISTDIR_PAGE)))).bind parseDirPage

/-- `ProxyClient::listdir`. The 32-bit offset wraps, as it does in the released build;
`none` is a loop that has not returned within the given number of rounds. -/
def listdir (dev : Device) (path : Bytes) :
    ℕ → UInt32 → List DirEntry → Option (Except ProxyError (List DirEntry))
  | 0, _, _ => none
  | fuel+1, offset, all =>
    match listdirPage dev path offset with
    | .error e => some (.error e)
    | .ok page =>
      let got := UInt32.ofNat page.length
      if got < UInt32.ofNat LISTDIR_PAGE then some (.ok (all++page))
      else listdir dev path fuel (offset+got) (all++page)

def LibcStat.toStat (st : LibcStat) : Stat where
  mode := ⟨st.st_mode⟩
  size := st.st_size.toUInt64
  mtime := st.st_mtime
  atime := st.st_atime
  ctime := st.st_ctime
  uid := st.st_uid
  gid := st.st_gid
  nlink := st.st_nlink
  blksize := st.st_blksize.toUInt32
  blocks := st.st_blocks.toUInt64

theorem encodeStat_eq (st : LibcStat) : encodeStat st = st.toStat.encode := rfl

/-- The entries a listing is about: everything but `.` and `..`. -/
def visible (ents : List DirName) : List DirName :=
  ents.filter fun e => !isDots e.bytes

/-- An entry with its stat, when the device can lstat it. -/
def lstatEntry (dev : Device) (path : Bytes) (e : DirName) : Option (DirName × LibcStat) :=
  match dev.lstat (cStr (fullPath path e.bytes)) with
  | .error _ => none
  | .ok st => some (e,st)

/-- An entry as the host sees it. -/
def hostEntry (p : DirName × LibcStat) : DirEntry := ⟨Utf8.fromUtf8Lossy p.1.bytes,p.2.toStat⟩

def pageBody (p : List (DirName × LibcStat)) : Bytes :=
  p.flatMap fun q => encodeEntry q.1.bytes q.2

/-- One device page: skip `offset` visible names, then the first `maxEntries` that
can be lstat-ed. -/
theorem listdirLoop_eq (dev : Device) (path : Bytes) (offset maxEntries : ℕ)
    (ents : List DirName) (seen emitted : ℕ) (body : Bytes) (hem : emitted < maxEntries) :
    listdirLoop dev path offset maxEntries ents seen emitted body =
      let p := (served (lstatEntry dev path) (visible ents) (offset-seen)).take (maxEntries-emitted)
      (emitted+p.length,body++pageBody p) := by
  induction ents generalizing seen emitted body with
  | nil => simp [listdirLoop,visible,served,pageBody]
  | cons ent ents ih =>
    by_cases hdot : isDots ent.bytes
    · have hvis : visible (ent::ents) = visible ents := by simp [visible,hdot]
      simp only [listdirLoop,hdot,if_true,hvis]
      exact ih seen emitted body hem
    · have hvis : visible (ent::ents) = ent::visible ents := by simp [visible,hdot]
      simp only [listdirLoop,hdot,Bool.false_eq_true,if_false,hvis]
      by_cases hskip : seen+1 ≤ offset
      · have hsub : offset-seen = offset-(seen+1)+1 := by omega
        simp only [hskip,if_true,hsub,served,drop_succ_cons]
        exact ih (seen+1) emitted body hem
      · have h0 : offset-seen = 0 := by omega
        have h1 : offset-(seen+1) = 0 := by omega
        simp only [hskip,if_false,h0,served,drop_zero,filterMap_cons]
        cases hst : dev.lstat (cStr (fullPath path ent.bytes)) with
        | error e =>
          have hnone : lstatEntry dev path ent = none := by simp [lstatEntry,hst]
          have h := ih (seen+1) emitted body hem
          simpa only [hnone,h1,served,drop_zero] using h
        | ok st =>
          have hsome : lstatEntry dev path ent = some (ent,st) := by simp [lstatEntry,hst]
          simp only [hsome]
          by_cases hlast : emitted+1 ≥ maxEntries
          · have hone : maxEntries-emitted = 1 := by omega
            simp [hlast,hone,pageBody]
          have hmore : maxEntries-emitted = maxEntries-(emitted+1)+1 := by omega
          have h := ih (seen+1) (emitted+1) (body++encodeEntry ent.bytes st) (by omega)
          simp only [hlast,if_false,hmore,take_succ_cons,h,h1,served,drop_zero]
          simp [pageBody,Nat.add_assoc,Nat.add_comm 1]

variable {name path : Bytes} {dev : Device} {ents : List DirName} {n : ℕ} {es : List (Bytes × LibcStat)}

theorem parse_cons (fuel : ℕ) (hlen : name.length < 256^4) (st : LibcStat) (rest : Bytes)
    (acc : List DirEntry) : parseDirEntriesGo (fuel+1) (encodeEntry name st++rest) acc =
      parseDirEntriesGo fuel rest (acc++[⟨Utf8.fromUtf8Lossy name,st.toStat⟩]) := by
  have hname : fromLe (toLe 4 name.length) = name.length := fromLe_toLe hlen
  have hst : (encodeStat st).length = 60 := by rw [encodeStat_eq,Stat.encode_length]
  have hdec : Stat.decode ((encodeStat st++rest).take 60) = some st.toStat := by
    have h := Stat.decode_encode st.toStat []
    rw [take_append_of_le_length hst.ge,take_of_length_le hst.le,encodeStat_eq]
    simpa using h
  have hhead : encodeEntry name st++rest = toLe 4 name.length ++ (name ++ (encodeStat st++rest)) := by
    simp [encodeEntry]
  have htake : (encodeEntry name st++rest).take 4 = toLe 4 name.length := by
    rw [hhead]
    exact take_left' (toLe_length _ _)
  have hdrop : (encodeEntry name st++rest).drop 4 = name ++ (encodeStat st++rest) := by
    rw [hhead]
    exact drop_left' (toLe_length _ _)
  have hne : encodeEntry name st++rest ≠ [] := by
    intro h
    have hl := congrArg List.length h
    simp [encodeEntry,hst] at hl
  have hfit : ¬ (name ++ (encodeStat st++rest)).length < name.length+60 := by
    simp only [length_append,hst]
    omega
  simp only [parseDirEntriesGo,List.isEmpty_iff,hne,if_false,htake,hname,hdrop,hfit]
  have hlong : ¬ (encodeEntry name st++rest).length < 4 := by simp [encodeEntry]
  have hnext : (name ++ (encodeStat st++rest)).drop (name.length+60) = rest := by
    rw [← append_assoc]
    exact drop_left' (by simp [hst])
  simp only [hlong,if_false,drop_left,take_left,hdec,hnext]

/-- The entries of a page, one after the other. -/
def entriesBody (es : List (Bytes × LibcStat)) : Bytes := es.flatMap fun e => encodeEntry e.1 e.2

/-- The host reads back exactly the entries the device wrote. -/
theorem parse_entriesBody (hes : ∀ e ∈ es, e.1.length < 256^4) (fuel : ℕ)
    (acc : List DirEntry) (hf : es.length ≤ fuel) : parseDirEntriesGo fuel (entriesBody es) acc =
      .ok (acc++es.map fun e => ⟨Utf8.fromUtf8Lossy e.1,e.2.toStat⟩) := by
  induction es generalizing fuel acc with
  | nil => cases fuel <;> simp [parseDirEntriesGo,entriesBody]
  | cons e es ih =>
    rw [forall_mem_cons] at hes
    cases fuel with
    | zero => simp at hf
    | succ fuel =>
      have hcons : entriesBody (e::es) = encodeEntry e.1 e.2++entriesBody es := by simp [entriesBody]
      rw [hcons,parse_cons fuel hes.1,ih hes.2 fuel _ (by simpa using hf)]
      simp

theorem length_le_entriesBody (es : List (Bytes × LibcStat)) : es.length ≤ (entriesBody es).length := by
  induction es with
  | nil => simp
  | cons e es ih =>
    simp only [entriesBody,flatMap_cons,length_append,length_cons,encodeEntry,toLe_length] at *
    omega

theorem parseDirPage_entries (hn : es.length < 256^4)
    (hes : ∀ e ∈ es, e.1.length < 256^4) : parseDirPage (toLe 4 es.length++entriesBody es) =
      .ok (es.map fun e => ⟨Utf8.fromUtf8Lossy e.1,e.2.toStat⟩) := by
  have hlen : ¬ (toLe 4 es.length++entriesBody es).length < 4 := by simp
  have hd : (toLe 4 es.length++entriesBody es).drop 4 = entriesBody es := drop_left' (toLe_length _ _)
  have ht : (toLe 4 es.length++entriesBody es).take 4 = toLe 4 es.length := take_left' (toLe_length _ _)
  have hparse := parse_entriesBody hes (entriesBody es).length [] (length_le_entriesBody es)
  simp only [parseDirPage,hlen,if_false,hd,ht,fromLe_toLe hn,parseDirEntries,hparse]
  simp [Except.bind]

theorem encodeEntry_length (q : DirName × LibcStat) : (encodeEntry q.1.bytes q.2).length = q.1.bytes.length+64 := by
  simp [encodeEntry,encodeStat_eq]
  omega

theorem pageBody_length_le (p : List (DirName × LibcStat)) : (pageBody p).length ≤ p.length*319 := by
  induction p with
  | nil => simp [pageBody]
  | cons q p ih =>
    have hq := q.1.length_le
    have he := encodeEntry_length q
    simp only [pageBody,flatMap_cons,length_append,length_cons] at *
    omega

theorem pageBody_eq (p : List (DirName × LibcStat)) : pageBody p = entriesBody (p.map fun q => (q.1.bytes,q.2)) := by
  rw [pageBody,entriesBody,flatMap_map]

theorem parseDirPage_page (p : List (DirName × LibcStat)) (hp : p.length < 256^4) :
    parseDirPage (toLe 4 p.length++pageBody p) = .ok (p.map hostEntry) := by
  have hnames : ∀ e ∈ p.map fun q => (q.1.bytes,q.2), e.1.length < 256^4 := by
    intro e he
    obtain ⟨q,-,rfl⟩ := mem_map.mp he
    exact q.1.length_le.trans_lt (by norm_num)
  have hparse := parseDirPage_entries (by rwa [length_map]) hnames
  rw [length_map,map_map] at hparse
  rw [pageBody_eq,hparse]
  rfl

theorem readPath_path (path rest : Bytes) (hp : path.length ≤ MAX_PATH) :
    readPath (toLe 4 path.length ++ (path++rest)) = some (path,rest) := by
  have hlen : path.length < 256^4 := lt_of_le_of_lt hp (by norm_num [MAX_PATH])
  have ht : (toLe 4 path.length ++ (path++rest)).take 4 = toLe 4 path.length := take_left' (toLe_length _ _)
  have hd : (toLe 4 path.length ++ (path++rest)).drop 4 = path++rest := drop_left' (toLe_length _ _)
  have hr : (toLe 4 path.length ++ (path++rest)).drop (4+path.length) = rest := by
    rw [← drop_drop,hd,drop_left]
  have h4 : ¬ (toLe 4 path.length ++ (path++rest)).length < 4 := by simp
  have hbad : ¬ (path.length > MAX_PATH ∨ (toLe 4 path.length ++ (path++rest)).length < 4+path.length) := by
    simp only [length_append,toLe_length]
    omega
  simp only [readPath,h4,if_false,ht,fromLe_toLe hlen,hbad,hd,hr,take_left]

theorem request_ok (serve : Bytes → Bytes) (args data : Bytes) (ha : args.length ≤ MAX_REQUEST)
    (hs : serve args = 0::data) (hd : data.length ≤ MAX_RESPONSE) :
    request serve args = .ok data := by
  have hsmall : (0::data).length < 256^4 := by
    simp only [length_cons]
    exact lt_of_le_of_lt (Nat.succ_le_succ hd) (by norm_num [MAX_RESPONSE])
  have hceil : ¬ (0::data).length > MAX_RESPONSE_FRAME := by
    simp only [length_cons,MAX_RESPONSE_FRAME]
    omega
  have ht : (toLe 4 (0::data).length++(0::data)).take 4 = toLe 4 (0::data).length := take_left' (toLe_length _ _)
  have hdr : (toLe 4 (0::data).length++(0::data)).drop 4 = 0::data := drop_left' (toLe_length _ _)
  have hframe : readFrame (frameReply (0::data)) = .ok (0::data) := by
    simp only [readFrame,frameReply,ht,hdr,fromLe_toLe hsmall,hceil,if_false,take_length]
  simp only [request,Nat.not_lt.mpr ha,if_false,hs,hframe]
  simp [Except.bind,openReply,Status.fromU8]

theorem dispatchListDir_page (dev : Device) (path : Bytes) (ents : List DirName)
    (hp : path.length ≤ MAX_PATH) (ho : dev.opendir (cStr path) = .ok ents) (offset : UInt32) :
    let p := (served (lstatEntry dev path) (visible ents) offset.toNat).take LISTDIR_PAGE
    dispatchListDir dev (toLe 4 path.length ++ (path ++ (toLe 4 offset.toNat ++
      toLe 4 LISTDIR_PAGE))) = 0::(toLe 4 p.length++pageBody p) := by
  have hoff : offset.toNat < 256^4 := by simpa using offset.toNat_lt
  have hpage : LISTDIR_PAGE < 256^4 := by norm_num [LISTDIR_PAGE]
  have hrest : (toLe 4 offset.toNat ++ toLe 4 LISTDIR_PAGE).length ≥ 8 := by simp
  have ht : (toLe 4 offset.toNat ++ toLe 4 LISTDIR_PAGE).take 4 = toLe 4 offset.toNat := take_left' (toLe_length _ _)
  have hd : ((toLe 4 offset.toNat ++ toLe 4 LISTDIR_PAGE).drop 4).take 4 = toLe 4 LISTDIR_PAGE := by
    rw [drop_left' (toLe_length _ _),take_of_length_le (by simp)]
  have hmax : max LISTDIR_PAGE 1 = LISTDIR_PAGE := by norm_num [LISTDIR_PAGE]
  have hloop := listdirLoop_eq dev path offset.toNat LISTDIR_PAGE ents 0 0 [] (by norm_num [LISTDIR_PAGE])
  simp only [dispatchListDir,readPath_path _ _ hp,hrest,if_true,ht,hd,fromLe_toLe hoff,
    fromLe_toLe hpage,hmax,doListdir,ho,hloop]
  simp

/-- One round trip returns the page the device cut at that offset. -/
theorem listdirPage_eq (dev : Device) (path : Bytes) (ents : List DirName)
    (hp : path.length ≤ MAX_PATH) (ho : dev.opendir (cStr path) = .ok ents) (offset : UInt32) :
    listdirPage dev path offset = .ok (((served (lstatEntry dev path) (visible ents)
      offset.toNat).take LISTDIR_PAGE).map hostEntry) := by
  have hlen := length_take_le LISTDIR_PAGE (served (lstatEntry dev path) (visible ents) offset.toNat)
  have hserve := dispatchListDir_page dev path ents hp ho offset
  simp only at hserve
  generalize hq : (served (lstatEntry dev path) (visible ents) offset.toNat).take LISTDIR_PAGE = p at hserve hlen ⊢
  have hbody := pageBody_length_le p
  have hsize : LISTDIR_PAGE*319+4 ≤ MAX_RESPONSE := by norm_num [LISTDIR_PAGE,MAX_RESPONSE]
  have hmul : p.length*319 ≤ LISTDIR_PAGE*319 := Nat.mul_le_mul_right 319 hlen
  have hdata : 4+(pageBody p).length ≤ MAX_RESPONSE := by
    rw [Nat.add_comm]
    exact (Nat.add_le_add_right (hbody.trans hmul) 4).trans hsize
  have hroom : path.length+12 ≤ MAX_REQUEST := (Nat.add_le_add_right hp 12).trans (by norm_num [MAX_PATH,MAX_REQUEST])
  have hargs : (toLe 4 path.length ++ (path ++ (toLe 4 offset.toNat ++ toLe 4 LISTDIR_PAGE))).length ≤ MAX_REQUEST := by
    have hsum : (toLe 4 path.length ++ (path ++ (toLe 4 offset.toNat ++
        toLe 4 LISTDIR_PAGE))).length = path.length+12 := by
      simp only [length_append,toLe_length]
      omega
    exact hsum.trans_le hroom
  have hreq := request_ok (dispatchListDir dev) _ _ hargs hserve (by simpa only [length_append,toLe_length] using hdata)
  have hcount : p.length < 256^4 := lt_of_le_of_lt hlen (by norm_num [LISTDIR_PAGE])
  rw [listdirPage,hreq]
  exact parseDirPage_page p hcount

/-- The host loop is the abstract walk over the visible names, in a 32-bit counter. -/
theorem listdir_eq_walk (dev : Device) (path : Bytes) (ents : List DirName)
    (hp : path.length ≤ MAX_PATH) (ho : dev.opendir (cStr path) = .ok ents)
    (fuel : ℕ) (offset : UInt32) (all : List DirEntry) :
    listdir dev path fuel offset all = (walk (lstatEntry dev path) LISTDIR_PAGE (2^32) (visible ents) fuel
        offset.toNat).map fun r => .ok (all++r.map hostEntry) := by
  induction fuel generalizing offset all with
  | zero => rfl
  | succ fuel ih =>
    have hlen := length_take_le LISTDIR_PAGE (served (lstatEntry dev path) (visible ents) offset.toNat)
    simp only [listdir,listdirPage_eq dev path ents hp ho offset,walk,length_map]
    generalize (served (lstatEntry dev path) (visible ents) offset.toNat).take LISTDIR_PAGE = p at hlen ⊢
    have hsmall : p.length < 2^32 := lt_of_le_of_lt hlen (by norm_num [LISTDIR_PAGE])
    have hgot : (UInt32.ofNat p.length).toNat = p.length := by
      rw [UInt32.toNat_ofNat',Nat.mod_eq_of_lt hsmall]
    have hcmp : UInt32.ofNat p.length < UInt32.ofNat LISTDIR_PAGE ↔ p.length < LISTDIR_PAGE := by
      rw [UInt32.lt_iff_toNat_lt,hgot]
      simp [LISTDIR_PAGE]
    by_cases hshort : p.length < LISTDIR_PAGE
    · simp [hshort,hcmp.mpr hshort]
    have hnext : (offset+UInt32.ofNat p.length).toNat = (offset.toNat+p.length)%2^32 := by
      rw [UInt32.toNat_add,hgot]
    simp only [hshort,mt hcmp.mp hshort,if_false,ih,hnext,Option.map_map]
    congr 1
    funext r
    simp

/-- The entries a listing owes its caller: visible, lstat-able, in readdir order. -/
def expected (dev : Device) (path : Bytes) (ents : List DirName) : List (DirName × LibcStat) :=
  (visible ents).filterMap (lstatEntry dev path)

/-- The host loop returns, and returns each of these entries exactly once and in order. -/
def ListsEveryEntry (dev : Device) (path : Bytes) (ents : List DirName) : Prop :=
  ∃ fuel, listdir dev path fuel 0 [] = some (.ok ((expected dev path ents).map hostEntry))

/-- No name that fails its lstat stands among the names that fill whole pages, and
these fit the 32-bit offset. -/
def FullPagesClean (dev : Device) (path : Bytes) (ents : List DirName) : Prop :=
  let filled := LISTDIR_PAGE*((expected dev path ents).length/LISTDIR_PAGE)
  filled < 2^32 ∧ ∀ e ∈ (visible ents).take filled, (lstatEntry dev path e).isSome

theorem clean_zero_iff (dev : Device) (path : Bytes) (ents : List DirName) :
    Clean (lstatEntry dev path) LISTDIR_PAGE (2^32) (visible ents) 0 ↔ FullPagesClean dev path ents := by
  simp [Clean,served,FullPagesClean,expected]

/-- A loop that returned the expected entries walked clean pages only: the page windows
overlap as soon as one of them had to skip a name. -/
theorem clean_of_listsEveryEntry (hp : path.length ≤ MAX_PATH) (ho : dev.opendir (cStr path) = .ok ents)
    (h : ListsEveryEntry dev path ents) : FullPagesClean dev path ents := by
  obtain ⟨fuel,hf⟩ := h
  rw [listdir_eq_walk dev path ents hp ho] at hf
  obtain ⟨r,hr,he⟩ := Option.map_eq_some_iff.mp hf
  have hmap : r.map hostEntry = (expected dev path ents).map hostEntry := by
    simpa using Except.ok.inj he
  have hlen : r.length = (expected dev path ents).length := by
    simpa using congrArg List.length hmap
  rw [← clean_zero_iff]
  exact clean_of_walk (by norm_num [LISTDIR_PAGE]) (by norm_num [LISTDIR_PAGE])
    (by norm_num) hr (by simpa [served,expected] using hlen)

/-- Listing a directory loses and repeats nothing exactly when every name below the
last full page boundary can be lstat-ed. -/
theorem listdir_complete_iff (dev : Device) (path : Bytes) (ents : List DirName)
    (hp : path.length ≤ MAX_PATH) (ho : dev.opendir (cStr path) = .ok ents) :
    ListsEveryEntry dev path ents ↔ FullPagesClean dev path ents := by
  constructor
  · exact clean_of_listsEveryEntry hp ho
  intro hc
  rw [← clean_zero_iff] at hc
  have hP : 0 < LISTDIR_PAGE := by norm_num [LISTDIR_PAGE]
  have hw := walk_of_clean hP hc (Nat.lt_succ_self _)
  refine ⟨(expected dev path ents).length/LISTDIR_PAGE+1,?_⟩
  rw [listdir_eq_walk dev path ents hp ho]
  simp only [served,drop_zero] at hw
  simp only [UInt32.toNat_zero,expected,hw,Option.map_some,nil_append]

def sampleStat : LibcStat := ⟨0o100644,0,0,0,0,2000,2000,1,4096,0⟩

/-- A device with one directory `/d`, in which `x` is the one name that cannot be
lstat-ed. -/
def sampleDevice (ents : List DirName) : Device where
  opendir := fun _ => .ok ents
  lstat := fun p => if p.length = 4 then .error 13 else .ok sampleStat
  errorText := fun _ => []

def unreadable : DirName := ⟨[120],by decide⟩

def digit (k : ℕ) : UInt8 := UInt8.ofNat (48+k%64)

def numbered (i : ℕ) : DirName := ⟨[digit (i/4096),digit (i/64),digit i],by simp⟩

theorem listdir_complete_small : ([47,100] : Bytes).length ≤ MAX_PATH ∧
      (ListsEveryEntry (sampleDevice [unreadable,numbered 1]) [47,100] [unreadable,numbered 1] ↔
        FullPagesClean (sampleDevice [unreadable,numbered 1]) [47,100] [unreadable,numbered 1]) :=
  ⟨by norm_num [MAX_PATH],listdir_complete_iff _ _ _ (by norm_num [MAX_PATH]) rfl⟩

/-- The unreadable name first, then `n` ordinary ones. -/
def crowd (n : ℕ) : List DirName := unreadable::(List.range n).map numbered

theorem digit_ne_zero (k : ℕ) : digit k ≠ 0 := by
  intro h
  have hn := congrArg UInt8.toNat h
  simp only [digit,UInt8.toNat_ofNat',UInt8.toNat_zero] at hn
  omega

theorem numbered_lstat (ents : List DirName) (i : ℕ) :
    lstatEntry (sampleDevice ents) [47,100] (numbered i) = some (numbered i,sampleStat) := by
  have hpath : cStr (fullPath [47,100] (numbered i).bytes) = [47,100,47]++(numbered i).bytes := by
    simp [cStr,fullPath,numbered,digit_ne_zero]
  have hlen : ([47,100,47]++(numbered i).bytes).length = 6 := rfl
  simp only [lstatEntry,hpath,sampleDevice,hlen]
  rfl

theorem unreadable_lstat (ents : List DirName) : lstatEntry (sampleDevice ents) [47,100] unreadable = none := by
  simp [lstatEntry,sampleDevice,cStr,fullPath,unreadable]

theorem crowd_visible (n : ℕ) : visible (crowd n) = crowd n := by
  apply filter_eq_self.mpr
  intro e he
  simp only [crowd,mem_cons,mem_map] at he
  obtain rfl | ⟨i,_,rfl⟩ := he
  · decide
  · simp [isDots,numbered,dot,dotdot]

theorem crowd_expected_length (ents : List DirName) (n : ℕ) :
    (expected (sampleDevice ents) [47,100] (crowd n)).length = n := by
  rw [expected,crowd_visible,crowd,filterMap_cons,unreadable_lstat]
  simp [numbered_lstat]

theorem crowd_not_clean (ents : List DirName) (hn : LISTDIR_PAGE ≤ n) :
    ¬ FullPagesClean (sampleDevice ents) [47,100] (crowd n) := by
  intro h
  have hP : 0 < LISTDIR_PAGE := by norm_num [LISTDIR_PAGE]
  have hpos : 0 < LISTDIR_PAGE*(n/LISTDIR_PAGE) := Nat.mul_pos hP (Nat.div_pos hn hP)
  simp only [FullPagesClean,crowd_expected_length,crowd_visible] at h
  have hmem : unreadable ∈ (crowd n).take (LISTDIR_PAGE*(n/LISTDIR_PAGE)) := by
    obtain ⟨k,hk⟩ := Nat.exists_eq_succ_of_ne_zero hpos.ne'
    rw [hk,crowd,take_succ_cons]
    exact mem_cons_self
  have hbad := h.2 unreadable hmem
  exact Bool.false_ne_true hbad

/-- One unreadable name ahead of a full page makes the listing wrong. -/
theorem listdir_crowd_repeats : (sampleDevice (crowd LISTDIR_PAGE)).opendir (cStr [47,100]) = .ok (crowd LISTDIR_PAGE) ∧
      ¬ ListsEveryEntry (sampleDevice (crowd LISTDIR_PAGE)) [47,100] (crowd LISTDIR_PAGE) := by
  refine ⟨rfl,?_⟩
  intro h
  exact crowd_not_clean _ le_rfl (clean_of_listsEveryEntry (by norm_num [MAX_PATH]) rfl h)

end AdbShare.Listing
