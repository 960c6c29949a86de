import AdbShare.Listing

/-! A page of a directory listing, as the device writes it and as the host reads it. Nothing is lost on
the way but bytes of names that are no text, and the host accepts nothing but pages. -/
namespace AdbShare.DirPages

open Listing List

/-- What `do_listdir` returns for these entries. -/
def dirPage (es : List (Bytes × LibcStat)) : Bytes := toLe 4 es.length++entriesBody es

/-- Every field of the host's stat, seen in the type that it has on the device, is the device's. -/
structure Same (st : LibcStat) (s : Stat) : Prop where
  mode : s.mode.bits = st.st_mode
  size : s.size.toInt64 = st.st_size
  mtime : s.mtime = st.st_mtime
  atime : s.atime = st.st_atime
  ctime : s.ctime = st.st_ctime
  uid : s.uid = st.st_uid
  gid : s.gid = st.st_gid
  nlink : s.nlink = st.st_nlink
  blksize : s.blksize.toInt32 = st.st_blksize
  blocks : s.blocks.toInt64 = st.st_blocks

theorem same_toStat (st : LibcStat) : Same st st.toStat where
  mode := rfl
  size := Int64.toInt64_toUInt64 _
  mtime := rfl
  atime := rfl
  ctime := rfl
  uid := rfl
  gid := rfl
  nlink := rfl
  blksize := Int32.toInt32_toUInt32 _
  blocks := Int64.toInt64_toUInt64 _

/-- The host has the entry under the name as text. -/
def Reads (e : Bytes × LibcStat) (d : DirEntry) : Prop := d.name = Utf8.fromUtf8Lossy e.1 ∧ Same e.2 d.stat

/-- An entry of a page: the length of its name, the name and the stat. -/
def record (r : Bytes × Stat) : Bytes := toLe 4 r.1.length++(r.1++r.2.encode)

/-- The bytes are the count and so many whole entries. -/
def IsPage (data : Bytes) (rs : List (Bytes × Stat)) : Prop :=
  rs.length < 256^4 ∧ (∀ r ∈ rs, r.1.length < 256^4) ∧ data = toLe 4 rs.length++rs.flatMap record

theorem reads_of_entries (es : List (Bytes × LibcStat)) :
    List.Forall₂ Reads es (es.map fun e => ⟨Utf8.fromUtf8Lossy e.1,e.2.toStat⟩) := by
  rw [List.forall₂_map_right_iff,List.forall₂_same]
  exact fun e _ => ⟨rfl,same_toStat e.2⟩

variable {dev : Device} {path page data : Bytes} {offset maxEntries fuel : ℕ} {acc out : List DirEntry}

theorem doListdir_eq (hmax : 0 < maxEntries)
    (h : doListdir dev path offset maxEntries = .ok page) : ∃ ents, dev.opendir (cStr path) = .ok ents ∧
      page = dirPage (((Paging.served (lstatEntry dev path) (visible ents) offset).take maxEntries).map
        fun q => (q.1.bytes,q.2)) := by
  unfold doListdir at h
  cases hopen : dev.opendir (cStr path) with
  | error errno =>
    rw [hopen] at h
    cases h
  | ok ents =>
    rw [hopen] at h
    have hloop := listdirLoop_eq dev path offset maxEntries ents 0 0 [] hmax
    refine ⟨ents,rfl,?_⟩
    obtain rfl := Except.ok.inj h
    rw [hloop,dirPage,← pageBody_eq]
    simp

theorem records_of_parse (hfuel : data.length ≤ fuel)
    (h : parseDirEntriesGo fuel data acc = .ok out) : ∃ rs : List (Bytes × Stat), (∀ r ∈ rs, r.1.length < 256^4) ∧
      data = rs.flatMap record ∧ out = acc++rs.map fun r => ⟨Utf8.fromUtf8Lossy r.1,r.2⟩ := by
  induction fuel generalizing data acc with
  | zero =>
    obtain rfl : data = [] := eq_nil_of_length_eq_zero (Nat.le_zero.mp hfuel)
    exact ⟨[],nofun,rfl,by simpa [parseDirEntriesGo] using h.symm⟩
  | succ fuel ih =>
    rw [parseDirEntriesGo] at h
    split_ifs at h with hempty hshort
    · obtain rfl := isEmpty_iff.mp hempty
      exact ⟨[],nofun,rfl,by simpa using h.symm⟩
    dsimp only at h
    split_ifs at h with hfit
    generalize hn : fromLe (data.take 4) = n at h hfit
    have hlt : n < 256^4 := by
      have := fromLe_lt (data.take 4)
      rwa [hn,length_take_of_le (by omega)] at this
    have hhead : toLe 4 n = data.take 4 := by
      have := toLe_fromLe (data.take 4)
      rwa [hn,length_take_of_le (by omega)] at this
    rw [length_drop] at hfit
    cases hstat : Stat.decode (((data.drop 4).drop n).take 60) with
    | none =>
      rw [hstat] at h
      cases h
    | some stat =>
      rw [hstat] at h
      have hencode := Stat.encode_of_decode (by simp only [length_take,length_drop]; omega) hstat
      have hname : ((data.drop 4).take n).length = n := by
        simp only [length_take,length_drop]
        omega
      obtain ⟨rs,hrs,hdata,hout⟩ := ih (by simp only [length_drop]; omega) h
      refine ⟨((data.drop 4).take n,stat)::rs,?_,?_,?_⟩
      · exact forall_mem_cons.mpr ⟨hname.trans_lt hlt,hrs⟩
      · rw [flatMap_cons,← hdata,record,hname,hhead,hencode]
        simp only [append_assoc]
        rw [← drop_drop,take_append_drop,take_append_drop,take_append_drop]
      · rw [hout]
        simp

theorem isPage_of_parse (h : parseDirPage data = .ok out) :
    ∃ rs, IsPage data rs ∧ out = rs.map fun r => ⟨Utf8.fromUtf8Lossy r.1,r.2⟩ := by
  rw [parseDirPage] at h
  split_ifs at h with hshort
  rw [parseDirEntries] at h
  cases hgo : parseDirEntriesGo (data.drop 4).length (data.drop 4) [] with
  | error e =>
    rw [hgo] at h
    cases h
  | ok entries =>
    rw [hgo] at h
    simp only [Except.bind] at h
    split_ifs at h with hcount
    obtain rfl := Except.ok.inj h
    obtain ⟨rs,hrs,hdata,hout⟩ := records_of_parse le_rfl hgo
    rw [nil_append] at hout
    have hlen : rs.length = fromLe (data.take 4) := by
      rw [← not_not.mp hcount,hout,length_map]
    have hfour : (data.take 4).length = 4 := length_take_of_le (by omega)
    refine ⟨rs,⟨?_,hrs,?_⟩,hout⟩
    · rw [hlen]
      exact (fromLe_lt _).trans_eq (by rw [hfour])
    · have hback := toLe_fromLe (data.take 4)
      rw [hfour] at hback
      rw [hlen,hback,← hdata,take_append_drop]

/-- The page that the device builds of its entries is read by the host as those entries, in their order; and
whatever bytes the host accepts are the count and so many whole entries, which it returns. -/
theorem dirPage_exact : (∀ dev path offset maxEntries page, 0 < maxEntries → maxEntries < 256^4 →
      doListdir dev path offset maxEntries = .ok page → ∃ es out, page = dirPage es ∧
        (∃ ents, dev.opendir (cStr path) = .ok ents ∧
          es = ((Paging.served (lstatEntry dev path) (visible ents) offset).take maxEntries).map fun q => (q.1.bytes,q.2)) ∧
        parseDirPage page = .ok out ∧ List.Forall₂ Reads es out) ∧
    (∀ es : List (Bytes × LibcStat), es.length < 256^4 → (∀ e ∈ es, e.1.length < 256^4) →
      ∃ out, parseDirPage (dirPage es) = .ok out ∧ List.Forall₂ Reads es out) ∧
    ∀ data out, parseDirPage data = .ok out →
      ∃ rs, IsPage data rs ∧ out = rs.map fun r => ⟨Utf8.fromUtf8Lossy r.1,r.2⟩ := by
  have hread : ∀ es : List (Bytes × LibcStat), es.length < 256^4 → (∀ e ∈ es, e.1.length < 256^4) →
      ∃ out, parseDirPage (dirPage es) = .ok out ∧ List.Forall₂ Reads es out :=
    fun es hn hes => ⟨_,parseDirPage_entries hn hes,reads_of_entries es⟩
  refine ⟨?_,hread,fun _ _ => isPage_of_parse⟩
  intro dev path offset maxEntries page hpos hmax h
  obtain ⟨ents,hopen,rfl⟩ := doListdir_eq hpos h
  have hlength : (((Paging.served (lstatEntry dev path) (visible ents) offset).take maxEntries).map
      fun q => (q.1.bytes,q.2)).length < 256^4 := by
    rw [length_map]
    exact (length_take_le _ _).trans_lt hmax
  have hnames : ∀ e ∈ ((Paging.served (lstatEntry dev path) (visible ents) offset).take maxEntries).map
      fun q => (q.1.bytes,q.2), e.1.length < 256^4 := by
    intro e he
    obtain ⟨q,-,rfl⟩ := mem_map.mp he
    exact q.1.length_le.trans_lt (by norm_num)
  obtain ⟨out,hparse,hout⟩ := hread _ hlength hnames
  exact ⟨_,out,rfl,⟨ents,hopen,rfl⟩,hparse,hout⟩

/-- A name that is no text, and a size of `-1`. -/
theorem dirPage_exact_odd : ∃ out, parseDirPage (dirPage [([0xFF],{ sampleStat with st_size := -1 })]) = .ok out ∧
    List.Forall₂ Reads [([0xFF],{ sampleStat with st_size := -1 })] out :=
  dirPage_exact.2.1 _ (by norm_num) (by simp)

end AdbShare.DirPages
