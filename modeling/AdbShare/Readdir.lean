import AdbShare.BufferWalk
import AdbShare.Filesystem

/-! Walking a directory through `readdir`. The kernel asks again from the offset of the
last entry it received until a reply is empty. -/
namespace AdbShare.Readdir

open Filesystem BufferWalk Prog Transition List ReplyDirectory

/-- An entry of a reply but for its inode number: offset, kind and name. -/
abbrev Item := ℕ × FileType × Bytes

def item (d : Dirent) : Item := (d.offset,d.kind,d.name)

def listed (e : DirEntry × ℕ) : Item := (e.2+3,kindFromMode e.1.stat.mode,e.1.name)

/-- What a walk over the listing should deliver. -/
def items (l : List DirEntry) : List Item :=
  (1,.directory,DOT)::(2,.directory,DOT_DOT)::l.zipIdx.map listed

/-- Every listing of the directory, cached or fetched, is `l`; all other answers are free. -/
def Lists (l : List DirEntry) : (β : Type) → Act β → β → Prop
  | _, .dirGet _, r => ∀ e, r = some e → e.value = l
  | _, .call (.listdir _), r => ∀ e, r = .ok e → e.value = l
  | _, _, _ => True

/-- The bytes an entry takes. -/
def size (encoded : Bytes → ℕ) (x : Item) : ℕ := encoded x.2.2

/-- `r` is what `reply` becomes when the items are added to it. -/
structure Filled (reply r : ReplyDirectory) (xs : List Item) : Prop where
  encoded : r.encoded = reply.encoded
  capacity : r.capacity = reply.capacity
  entries : r.entries.map item =
    reply.entries.map item++fill (size reply.encoded) (reply.capacity-reply.used) xs

theorem used_add (reply : ReplyDirectory) (d : Dirent) :
    ({ reply with entries := reply.entries++[d] } : ReplyDirectory).used = reply.used+reply.encoded d.name := by
  simp [used]

variable {reply r : ReplyDirectory} {ino offset t : ℕ} {kind : FileType} {name : Bytes} {xs : List Item} {path : Path}
  {fresh : Bool} {fetched : Option ℕ} {rep : Reply} {entries : Reading (List DirEntry)} {δ γ : Type} {D : Device δ γ}
  {d : δ} {es : List (Service.Event (Choice γ) Req)} {c : Service.Config Act (Fs δ) Req Reply} {q : Req}
  {l : List DirEntry} {f : ℕ → List DirEntry}

/-- Adding one entry and then the rest. -/
theorem Filled.of_add (h : Filled (reply.add ino offset kind name).2 r xs)
    (hroom : reply.used ≤ reply.capacity) : Filled reply r ((offset,kind,name)::xs) := by
  unfold add at h
  have hsize : size reply.encoded (offset,kind,name) = reply.encoded name := rfl
  by_cases hfit : reply.used+reply.encoded name ≤ reply.capacity
  · simp only [hfit,if_true] at h
    have hle : reply.encoded name ≤ reply.capacity-reply.used := by omega
    refine ⟨h.encoded,h.capacity,?_⟩
    rw [h.entries,used_add]
    simp [fill,hsize,hle,item,Nat.sub_sub]
  · simp only [hfit,if_false] at h
    have hle : ¬ reply.encoded name ≤ reply.capacity-reply.used := by omega
    refine ⟨h.encoded,h.capacity,?_⟩
    rw [h.entries]
    simp [fill,hsize,hle]

theorem add_room (ino offset : ℕ) (kind : FileType) (name : Bytes) (hroom : reply.used ≤ reply.capacity) :
    (reply.add ino offset kind name).2.used ≤ (reply.add ino offset kind name).2.capacity := by
  unfold add
  by_cases hfit : reply.used+reply.encoded name ≤ reply.capacity
  · simp only [hfit,if_true]
    rw [used_add]
    exact hfit
  · simpa only [hfit,if_false] using hroom

/-- The loop adds the entries it is given, whatever inodes they get. -/
theorem addEntries_filled {es : List (DirEntry × ℕ)} (hroom : reply.used ≤ reply.capacity)
    (h : (addEntries path fresh fetched es reply).Returns (Lists l) rep) :
    ∃ r, rep = .directory r ∧ Filled reply r (es.map listed) := by
  induction es generalizing reply with
  | nil =>
    have hr : rep = .directory reply := by simpa [addEntries] using h
    exact ⟨reply,hr,rfl,rfl,by simp [fill]⟩
  | cons e es ih =>
    obtain ⟨ino,-,hrest⟩ := returns_bind_iff.mp h
    obtain ⟨r,hr,hf⟩ := ih (add_room ino _ _ _ hroom) hrest
    exact ⟨r,hr,hf.of_add hroom⟩

/-- From any offset the items that follow it are offered to the buffer. -/
theorem listEntries_filled (hl : entries.value = l) (hroom : reply.used ≤ reply.capacity)
    (h : (listEntries ino offset reply path fresh entries).Returns (Lists l) rep) :
    ∃ r, rep = .directory r ∧ Filled reply r ((items l).drop offset) := by
  subst hl
  match offset with
  | 0 =>
    have hdot := add_room ino 1 .directory DOT hroom
    obtain ⟨r,hr,hf⟩ := addEntries_filled (add_room ROOT 2 .directory DOT_DOT hdot) h
    exact ⟨r,hr,(hf.of_add hdot).of_add hroom⟩
  | 1 =>
    obtain ⟨r,hr,hf⟩ := addEntries_filled (add_room ROOT 2 .directory DOT_DOT hroom) h
    exact ⟨r,hr,hf.of_add hroom⟩
  | n+2 =>
    obtain ⟨r,hr,hf⟩ := addEntries_filled hroom h
    refine ⟨r,hr,?_⟩
    simpa [items,addDots] using hf

theorem readdir_filled (hroom : reply.used ≤ reply.capacity)
    (h : (readdir ino offset reply).Returns (Lists l) (.directory r)) :
    Filled reply r ((items l).drop offset) := by
  unfold readdir withPath at h
  simp only [perform_bind,returns_act_iff] at h
  obtain ⟨p,-,h⟩ := h
  cases p with
  | none => simp at h
  | some path =>
    cases ht : Path.toText path with
    | none => simp [ht] at h
    | some text =>
      simp only [ht,returns_act_iff] at h
      obtain ⟨cached,hcached,h⟩ := h
      cases cached with
      | some entries =>
        obtain ⟨r',hr,hf⟩ := listEntries_filled (hcached entries rfl) hroom h
        cases hr
        exact hf
      | none =>
        obtain ⟨epoch,-,res,hres,h⟩ := h
        cases res with
        | error e => simp at h
        | ok entries =>
          obtain ⟨_,-,h⟩ := h
          obtain ⟨r',hr,hf⟩ := listEntries_filled (hres entries rfl) hroom h
          cases hr
          exact hf

/-- An inode number can be found for every entry. -/
theorem adopt_returns (l : List DirEntry) (parent : Path) (entry : Reading DirEntry) (fresh : Bool) :
    (adoptListingEntry parent entry fresh).Returns (Lists l) 0 := by
  cases fresh with
  | true => exact ⟨(0,false),trivial,(),trivial,rfl⟩
  | false => exact ⟨(0,false),trivial,rfl⟩

theorem addEntries_returns (l : List DirEntry) (path : Path) (fresh : Bool) (fetched : Option ℕ)
    (es : List (DirEntry × ℕ)) (reply : ReplyDirectory) :
    ∃ r, (addEntries path fresh fetched es reply).Returns (Lists l) (.directory r) := by
  induction es generalizing reply with
  | nil => exact ⟨reply,rfl⟩
  | cons e es ih =>
    obtain ⟨r,hr⟩ := ih (reply.add 0 (e.2+3) (kindFromMode e.1.stat.mode) e.1.name).2
    exact ⟨r,returns_bind_iff.mpr ⟨0,adopt_returns l path ⟨e.1,fetched⟩ fresh,hr⟩⟩

theorem readdir_returns (l : List DirEntry) (ino offset : ℕ) (reply : ReplyDirectory) :
    ∃ r, (readdir ino offset reply).Returns (Lists l) (.directory r) := by
  obtain ⟨r,hr⟩ := addEntries_returns l [] false none
    (l.zipIdx.drop ((addDots ino offset reply).1-2)) (addDots ino offset reply).2
  exact ⟨r,some [],trivial,some ⟨l,none⟩,fun e he => by cases he; rfl,hr⟩

/-- A request to list a directory finds the listing `f` has for its inode. -/
def Stable (f : ℕ → List DirEntry) : Req → (β : Type) → Act β → β → Prop
  | .readdir ino _ _ => Lists (f ino)
  | _ => fun _ _ _ => True

/-- A reply that a thread delivers in any run is one that the handler can return. -/
theorem delivered_returns {r : Reply} (h : exec (service D).step (start d) es = some c)
    (hl : Meets (service D).step ((service D).Answers (Stable f)) (start d) es)
    (ht : c.threads t = some (q,.ret r)) : (handler q).Returns (Stable f q) r := by
  have htraced : (service D).Traced (Stable f) c :=
    exec_invariant_of_meets (Service.step_traced (service D) (Stable f)) (by simp [Service.Traced,start]) hl h
  exact htraced t q _ ht r rfl

/-- A walk from an offset on, the `i`-th call having the `i`-th buffer: the entries the
kernel receives until an empty reply. -/
inductive Walk (l : List DirEntry) (ino : ℕ) (encoded : Bytes → ℕ) (caps : ℕ → ℕ) :
    ℕ → ℕ → List Dirent → Prop
  | stop {i o : ℕ} {r : ReplyDirectory}
      (h : (handler (.readdir ino o ⟨encoded,caps i,[]⟩)).Returns (Lists l) (.directory r))
      (hr : r.entries = []) : Walk l ino encoded caps i o []
  | more {i o : ℕ} {r : ReplyDirectory} {d : Dirent} {es : List Dirent}
      (h : (handler (.readdir ino o ⟨encoded,caps i,[]⟩)).Returns (Lists l) (.directory r))
      (hd : r.entries.getLast? = some d) (hes : Walk l ino encoded caps (i+1) d.offset es) :
      Walk l ino encoded caps i o (r.entries++es)

section

variable {o cap i n : ℕ} {encoded : Bytes → ℕ} {caps : ℕ → ℕ} {x : Item} {d : Dirent} {es : List Dirent}

theorem reply_items (h : (handler (.readdir ino o ⟨encoded,cap,[]⟩)).Returns (Lists l) (.directory r)) :
    r.entries.map item = fill (size encoded) cap ((items l).drop o) := by
  have hf := readdir_filled (by simp [used]) h
  simpa [used] using hf.entries

theorem items_pos (i : ℕ) (hi : i < (items l).length) : ((items l).get ⟨i,hi⟩).1 = i+1 := by
  match i with
  | 0 => rfl
  | 1 => rfl
  | n+2 => simp [items,listed]

theorem items_nodup : (items l).Nodup := by
  apply nodup_iff_injective_get.mpr
  intro i j h
  have hij : i.1+1 = j.1+1 := by rw [← items_pos i.1 i.2,← items_pos j.1 j.2,h]
  exact Fin.ext (Nat.succ.inj hij)

theorem pos_of_mem_drop (h : x ∈ (items l).drop o) : o < x.1 ∧ x.1 ≤ (items l).length := by
  obtain ⟨j,hj,rfl⟩ := getElem_of_mem h
  have hlen : o+j < (items l).length := by
    rw [length_drop] at hj
    omega
  have hp := items_pos (o+j) hlen
  rw [getElem_drop]
  simp only [get_eq_getElem] at hp
  omega

/-- The offset the kernel goes on from lies behind the one it asked for. -/
theorem reply_advances (h : (handler (.readdir ino o ⟨encoded,cap,[]⟩)).Returns (Lists l) (.directory r))
    (hd : r.entries.getLast? = some d) : o < d.offset ∧ d.offset ≤ (items l).length := by
  have hmem : item d ∈ fill (size encoded) cap ((items l).drop o) := by
    rw [← reply_items h]
    exact mem_map_of_mem (mem_of_getLast? hd)
  exact pos_of_mem_drop ((fill_sublist _ _ _).subset hmem)

theorem walk_items (h : Walk l ino encoded caps i o es) (hn : (items l).length < n+o) :
    es.map item = walk (size encoded) Prod.fst caps (items l) i n o := by
  induction h generalizing n with
  | @stop i o r h hr =>
    have hf : fill (size encoded) (caps i) ((items l).drop o) = [] := by
      rw [← reply_items h,hr]
      rfl
    cases n with
    | zero => rfl
    | succ n => simp [walk,hf]
  | @more i o r d es h hd hes ih =>
    obtain ⟨hlt,hle⟩ := reply_advances h hd
    cases n with
    | zero => omega
    | succ n =>
      have hlast : (fill (size encoded) (caps i) ((items l).drop o)).getLast? = some (item d) := by
        rw [← reply_items h,getLast?_map,hd]
        rfl
      rw [map_append,reply_items h,ih (n:=n) (by omega)]
      simp [walk,hlast,item]

theorem exists_walk (i o n : ℕ) (hn : (items l).length < n+o) : ∃ es, Walk l ino encoded caps i o es := by
  induction n generalizing i o with
  | zero =>
    obtain ⟨r,hr⟩ := readdir_returns l ino o ⟨encoded,caps i,[]⟩
    refine ⟨[],.stop hr ?_⟩
    have hnil : (items l).drop o = [] := drop_eq_nil_of_le (by omega)
    have hi := reply_items hr
    simpa [hnil,fill] using hi
  | succ n ih =>
    obtain ⟨r,hr⟩ := readdir_returns l ino o ⟨encoded,caps i,[]⟩
    cases hd : r.entries.getLast? with
    | none => exact ⟨[],.stop hr (getLast?_eq_none_iff.mp hd)⟩
    | some d =>
      obtain ⟨hlt,hle⟩ := reply_advances hr hd
      obtain ⟨es,hes⟩ := ih (i+1) d.offset (by omega)
      exact ⟨_,.more hr hd hes⟩

end

/-- The walk ends, and it delivers `.`, `..` and the listing, each entry once and in order,
exactly when every reply takes the next entry and, after the first entry that does not
fit, no later one fits either. -/
theorem readdir_walk_complete_iff (l : List DirEntry) (ino : ℕ) (encoded : Bytes → ℕ) (caps : ℕ → ℕ) :
    (∃ es, Walk l ino encoded caps 0 0 es) ∧
    ∀ es, Walk l ino encoded caps 0 0 es → (es.map item = items l ↔
        Steady (size encoded) caps (items l) 0 ((items l).length+1) 0) := by
  refine ⟨exists_walk 0 0 ((items l).length+1) (by omega),?_⟩
  intro es h
  rw [walk_items h (n:=(items l).length+1) (by omega)]
  have hiff := walk_eq_drop_iff (size encoded) caps (items_nodup (l:=l)) items_pos 0 ((items l).length+1) 0
  simpa using hiff

/-- A long name before a short one, and buffers that hold three short names. -/
def longThenShort : List DirEntry := [⟨List.replicate 16 97,fileStat⟩,⟨[98],fileStat⟩]

theorem readdir_walk_complete_short : ∃ es, Walk [⟨[98],fileStat⟩] ROOT direntSize (fun _ => 100) 0 0 es ∧
      es.map item = items [⟨[98],fileStat⟩] := by
  obtain ⟨⟨es,hes⟩,hiff⟩ := readdir_walk_complete_iff [⟨[98],fileStat⟩] ROOT direntSize fun _ => 100
  refine ⟨es,hes,(hiff es hes).mpr ?_⟩
  decide

/-- The long name is passed over for good. -/
theorem readdir_walk_skips : ∃ es, Walk longThenShort ROOT direntSize (fun _ => 100) 0 0 es ∧
      es.map item = [(1,.directory,DOT),(2,.directory,DOT_DOT),(4,.regularFile,[98])] ∧
      es.map item ≠ items longThenShort := by
  have hex : ∃ es, Walk longThenShort ROOT direntSize (fun _ => 100) 0 0 es := exists_walk 0 0 5 (by decide)
  obtain ⟨es,hes⟩ := hex
  refine ⟨es,hes,?_⟩
  rw [walk_items hes (n:=5) (by decide)]
  decide

/-- Whatever else is served at the same time, a reply holds the entries from its offset on that fill its
buffer, and the offset to go on from lies behind it. -/
theorem delivered_exact (h : exec (service D).step (start d) es = some c)
    (hl : Meets (service D).step ((service D).Answers (Stable f)) (start d) es) {o cap : ℕ} {encoded : Bytes → ℕ}
    (ht : c.threads t = some (.readdir ino o ⟨encoded,cap,[]⟩,.ret (.directory r))) :
    r.entries.map item = fill (size encoded) cap ((items (f ino)).drop o) ∧
      ∀ d, r.entries.getLast? = some d → o < d.offset ∧ d.offset ≤ (items (f ino)).length :=
  have hreturns := delivered_returns h hl ht
  ⟨reply_items hreturns,fun _ => reply_advances hreturns⟩

/-- The root is listed from `..` on, with a buffer that does not hold all of it. -/
def listRoot : List (Service.Event (Choice Oracle) Req) :=
  .start 0 (.readdir ROOT 1 ⟨direntSize,100,[]⟩)::
    replicate 11 (.act 0 ⟨0,{ (goesWell dirStat).device with listing := .ok ⟨longThenShort,none⟩ }⟩)

theorem delivered_exact_root : ∃ c r, exec (service oracle).step (start ()) listRoot = some c ∧
    c.threads 0 = some (.readdir ROOT 1 ⟨direntSize,100,[]⟩,.ret (.directory r)) ∧
      r.entries.map item = fill (size direntSize) 100 ((items longThenShort).drop 1) ∧
        r.entries.map item = [(2,.directory,DOT_DOT),(3,.regularFile,List.replicate 16 97)] := by
  have hl : Meets (service oracle).step ((service oracle).Answers (Stable fun _ => longThenShort)) (start ()) listRoot := by
    refine meets_cons rfl (fun _ _ _ _ _ _ _ _ he => by cases he) ?_
    iterate 11
      refine meets_cons rfl ?_ ?_
      · intro t x q β a k b s he ht hs
        cases he
        cases ht
        cases hs
        first | trivial | exact fun e he => by cases he <;> rfl
    trivial
  have h := delivered_exact (t:=0) (o:=1) rfl hl rfl
  refine ⟨_,_,rfl,rfl,h.1,h.1.trans ?_⟩
  decide

end AdbShare.Readdir
