import AdbShare.Filesystem

/-! The inode table under any interleaving of requests, on any device. -/
namespace AdbShare.InodeTable

open Filesystem Service Transition Option

variable {δ γ β : Type} {path : Path} {s s' : Fs δ} {b : β} {es : List (Event (Choice γ) Req)}
  {c : Config Act (Fs δ) Req Reply}

/-- A rename clears its way, and the inode counter has not wrapped. -/
def Orderly : (β : Type) → Act β → Fs δ → Prop
  | _, .renamePaths src dst isDir, s => s.inodes.Clear src.1 dst.1 isDir
  | _, .reserveIno path, s => s.inodes.pathToIno.lookup path = none → s.inodes.nextIno < 2^64
  | _, _, _ => True

/-- The table as it is once the `ino_for` that holds the lock is through. -/
def settled (s : Fs δ) : Inodes :=
  match s.storing with
  | some (ino,path) => s.inodes.store ino path
  | none => s.inodes

theorem reserve_new {s : Inodes} (h : s.pathToIno.lookup path = none) : s.reserve path = (s.nextIno%2^64,true,
      { s with pathToIno := s.pathToIno.insert path (s.nextIno%2^64), nextIno := s.nextIno+1 }) := by
  simp [Inodes.reserve,h]

theorem ok_of_settled (hst : s.storing = none) (hs : (settled s).Ok) : s.inodes.Ok := by
  simpa [settled,hst] using hs

/-- Every critical section keeps the table in order. -/
theorem atomically_ok (D : Device δ γ) (x : γ) (a : Act β)
    (hs : (settled s).Ok) (hg : Orderly β a s) (h : atomically D x s a = some (b,s')) : (settled s').Ok := by
  cases atomically_tabled h with
  | known hst hp => exact hs
  | reserved hst hp =>
    rw [reserve_new hp]
    exact (ok_of_settled hst hs).reserve_store (hg hp) (reserve_new hp)
  | stored hst => simpa [settled,hst] using hs
  | forgot hst => simpa [settled,hst] using (ok_of_settled hst hs).forgetIno _
  | @renamed src dst isDir hst => simpa [settled,hst] using (ok_of_settled hst hs).renamePaths src.2 dst.2 hg
  | other ha hi hst => rwa [settled,hst,hi]

theorem run_ok (D : Device δ γ) (β : Type) (a : Act β) (x : Choice γ) (s : Fs δ) (b : β) (s' : Fs δ)
    (hs : (settled s).Ok) (hg : Orderly β a s) (h : run D a x s = some (b,s')) : (settled s').Ok := by
  refine atomically_ok D x.device a (s:={ s with now := s.now+x.elapsed }) hs ?_ h
  cases a <;> exact hg

theorem exec_settled (D : Device δ γ) (d : δ) (hm : Meets (service D).step (Careful Orderly) (start d) es)
    (h : exec (service D).step (start d) es = some c) : (settled c.shared).Ok := by
  have hstart : (settled (start d).shared).Ok := Inodes.init_ok
  refine exec_shared (run_ok D) ?_ ?_ hstart hm h
  · intro q s s' hs ha
    cases ha
    exact hs
  · intro q r s hs
    exact hs

/-- In every run whose renames clear their way, the two maps are inverse to each other and
the root is mapped whenever no lock is held. -/
theorem maps_stay_inverse (D : Device δ γ) (d : δ) (es : List (Event (Choice γ) Req))
    (c : Config Act (Fs δ) Req Reply) (hm : Meets (service D).step (Careful Orderly) (start d) es)
    (h : exec (service D).step (start d) es = some c) (hfree : c.shared.storing = none) :
    (∀ i p, c.shared.inodes.inoToPath.lookup i = some p ↔ c.shared.inodes.pathToIno.lookup p = some i) ∧
    c.shared.inodes.inoToPath.lookup ROOT = some [] ∧
    c.shared.inodes.pathToIno.lookup [] = some ROOT := by
  have hok : c.shared.inodes.Ok := by
    have hs := exec_settled D d hm h
    simpa [settled,hfree] using hs
  exact ⟨fun i p => hok.inverse p i,hok.root_path,hok.root⟩

/-- A directory `/a` is looked up and renamed to `/b`. -/
def renameAway : List (Event (Choice Oracle) Req) :=
  serve (.lookup ROOT [97]) 5 (goesWell dirStat)++
  serve (.rename ROOT [97] ROOT [98] 0) 13 (goesWell dirStat)

instance (β : Type) (a : Act β) (s : Fs δ) : Decidable (Orderly β a s) := by
  cases a with
  | renamePaths src dst isDir => exact decidable_of_iff _ Inodes.clear_iff_keys.symm
  | reserveIno path => exact inferInstanceAs (Decidable (_ → _))
  | _ => exact isTrue trivial

theorem maps_stay_inverse_renamed :
    ∃ c, exec (service oracle).step (start ()) renameAway = some c ∧ c.shared.storing = none ∧
      (∀ i p, c.shared.inodes.inoToPath.lookup i = some p ↔ c.shared.inodes.pathToIno.lookup p = some i) ∧
      c.shared.inodes.inoToPath.lookup ROOT = some [] ∧
      c.shared.inodes.pathToIno.lookup [] = some ROOT :=
  ⟨_,rfl,rfl,maps_stay_inverse oracle () renameAway _
    (meets_of_check (fun _ _ => careful_of_isCareful) (by decide +kernel)) rfl rfl⟩

/-- `/a` and `/b` are directories that each had a file `x` looked up; `/b/x` is unlinked
and `/a` is renamed over the empty `/b`. -/
def renameOverEmptied : List (Event (Choice Oracle) Req) :=
  serve (.lookup ROOT [97]) 5 (goesWell dirStat)++serve (.lookup ROOT [98]) 5 (goesWell dirStat)++
  serve (.lookup 101 [120]) 5 (goesWell fileStat)++serve (.lookup 100 [120]) 5 (goesWell fileStat)++
  serve (.unlink 101 [120]) 5 (goesWell fileStat)++
  serve (.rename ROOT [97] ROOT [98] 0) 13 (goesWell dirStat)

theorem rename_leaves_stale_inode :
    ∃ c, exec (service oracle).step (start ()) renameOverEmptied = some c ∧ c.shared.storing = none ∧
      c.shared.inodes.inoToPath.lookup 102 = some [[98],[120]] ∧
      c.shared.inodes.pathToIno.lookup [[98],[120]] = some 103 := by
  refine ⟨_,rfl,rfl,?_⟩
  decide

end AdbShare.InodeTable
