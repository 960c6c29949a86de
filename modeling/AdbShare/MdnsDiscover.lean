import AdbShare.Dict
import AdbShare.Mdns

/-! Finding a service. The records of all packets received are collected in maps, and after every
packet the maps are searched for the instance that is wanted. -/
namespace AdbShare.Mdns

open List Option

abbrev Ip := UInt8 × UInt8 × UInt8 × UInt8

def EQUALS : UInt8 := 61

structure ServiceEndpoint where
  inst : Bytes
  host : Bytes
  ip : Ip
  port : ℕ
  txt : Dict Bytes Bytes
  deriving DecidableEq

structure Maps where
  ptrs : Dict Bytes Unit
  srvs : Dict Bytes (Bytes × ℕ)
  txts : Dict Bytes (Dict Bytes Bytes)
  addrs : Dict Bytes Ip

def Maps.empty : Maps := ⟨∅,∅,∅,∅⟩

/-- `strip_suffix`. -/
def stripSuffix (suffix s : Bytes) : Option Bytes :=
  if suffix <:+ s then some (s.take (s.length-suffix.length)) else none

def serviceInstanceName (serviceType target : Bytes) : Bytes := (stripSuffix (DOT::serviceType) target).getD target

/-- `split_once('=')`. -/
def splitOnce (s : Bytes) : Option (Bytes × Bytes) :=
  if EQUALS ∈ s then some (s.takeWhile (· ≠ EQUALS),(s.dropWhile (· ≠ EQUALS)).drop 1) else none

def txtMap (strings : List Bytes) : Dict Bytes Bytes :=
  (strings.filterMap splitOnce).foldl (fun m kv => m.insert kv.1 kv.2) ∅

section

variable (serviceType : Bytes) (wanted : Option Bytes)

/-- What a record adds to the maps. -/
def learn (m : Maps) : Bytes × Record → Maps
  | (_,.ptr target) =>
    let inst := serviceInstanceName serviceType target
    if wanted.all fun want => inst == want then { m with ptrs := m.ptrs.insert target () } else m
  | (_,.srv target port) => { m with srvs := m.srvs.insert target (target,port) }
  | (owner,.txt strings) => { m with txts := m.txts.insert owner (txtMap strings) }
  | (owner,.a ip) => { m with addrs := m.addrs.insert owner ip }

def absorb (m : Maps) (response : List (Bytes × Record)) : Maps := response.foldl (learn serviceType wanted) m

/-- The loop of `resolve` over the keys of `ptrs`, which come in any order. -/
def resolve (m : Maps) : List Bytes → Option ServiceEndpoint
  | [] => none
  | target::rest =>
    let inst := serviceInstanceName serviceType target
    if wanted.any fun want => inst != want then resolve m rest
    else do
      let (host,port) ← m.srvs.lookup target
      let ip ← m.addrs.lookup host
      return ⟨inst,host,ip,port,(m.txts.lookup target).getD ∅⟩

/-- `discover`, given what is received until the deadline and the order in which a map gives its keys.
The outer `none` is a panic, the inner one the timeout. -/
def discover (order : Dict Bytes Unit → List Bytes) : List (Option Bytes) → Maps → Option (Option ServiceEndpoint)
  | [], _ => some none
  | none::rest, m => discover order rest m
  | some packet::rest, m => do
    let m := absorb serviceType wanted m (← parseResponse packet)
    match resolve serviceType wanted m (order m.ptrs) with
    | some ep => return some ep
    | none => discover order rest m

end

/-- The port in the last SRV record that names the host as its target. -/
def lastPort (records : List (Bytes × Record)) (host : Bytes) : Option ℕ :=
  records.reverse.findSome? fun
    | (_,.srv target port) => if target = host then some port else none
    | _ => none

/-- The address in the last A record of the host. -/
def lastAddress (records : List (Bytes × Record)) (host : Bytes) : Option Ip :=
  records.reverse.findSome? fun
    | (owner,.a ip) => if owner = host then some ip else none
    | _ => none

/-- The target of a PTR record for the instance. -/
def instanceTarget (serviceType inst : Bytes) : Bytes := inst++DOT::serviceType

/-- The three records of an instance are among those received, whatever else is. -/
structure Announced (serviceType inst host : Bytes) (port : ℕ) (ip : Ip) (records : List (Bytes × Record)) : Prop where
  ptr : (serviceType,.ptr (instanceTarget serviceType inst)) ∈ records
  srv : (instanceTarget serviceType inst,.srv host port) ∈ records
  a : (host,.a ip) ∈ records

section

variable {serviceType want target : Bytes} {records : List (Bytes × Record)} {m : Maps} {rest : List Bytes}

theorem serviceInstanceName_target (serviceType inst : Bytes) :
    serviceInstanceName serviceType (instanceTarget serviceType inst) = inst := by
  have hsuffix : DOT::serviceType <:+ instanceTarget serviceType inst := ⟨inst,rfl⟩
  rw [serviceInstanceName,stripSuffix]
  simp [instanceTarget]

theorem mem_ptrs_iff : target ∈ (absorb serviceType (some want) .empty records).ptrs.keys ↔
      serviceInstanceName serviceType target = want ∧ ∃ owner, (owner,.ptr target) ∈ records := by
  induction records using List.reverseRecOn with
  | nil => simp [absorb,Maps.empty]
  | append_singleton rs r ih =>
    obtain ⟨owner,record⟩ := r
    rw [absorb,foldl_concat,← absorb]
    cases record with
    | srv host port | txt strings | a ip => simpa [learn] using ih
    | ptr name =>
      by_cases hname : serviceInstanceName serviceType name = want
      · have hlearn : (learn serviceType (some want) (absorb serviceType (some want) .empty rs)
            (owner,.ptr name)).ptrs = (absorb serviceType (some want) .empty rs).ptrs.insert name () := by
          simp [learn,hname]
        rw [hlearn,← AList.mem_keys,AList.mem_insert,AList.mem_keys,ih]
        constructor
        · rintro (rfl | ⟨htarget,owner',h⟩)
          · exact ⟨hname,owner,by simp⟩
          · exact ⟨htarget,owner',mem_append_left _ h⟩
        · rintro ⟨htarget,owner',h⟩
          obtain h | h := mem_append.mp h
          · exact Or.inr ⟨htarget,owner',h⟩
          · left
            simpa using (congrArg Prod.snd (mem_singleton.mp h))
      · have hlearn : learn serviceType (some want) (absorb serviceType (some want) .empty rs) (owner,.ptr name) =
            absorb serviceType (some want) .empty rs := by
          simp [learn,hname]
        rw [hlearn,ih]
        refine and_congr_right ?_
        intro htarget
        have hne : target ≠ name := by
          rintro rfl
          exact hname htarget
        simp [hne]

theorem lookup_srvs (wanted : Option Bytes) (host : Bytes) :
    (absorb serviceType wanted .empty records).srvs.lookup host = (lastPort records host).map (host,·) := by
  rw [lastPort,map_findSome?]
  refine (Dict.foldl_last_write (fun m : Maps => m.srvs.lookup host) ?_ records .empty).trans (or_none)
  rintro m ⟨owner,record⟩
  cases record with
  | ptr name =>
    rw [learn]
    split <;> rfl
  | txt strings | a ip => rfl
  | srv target port =>
    rw [learn,Dict.lookup_insert_if]
    by_cases hhost : target = host
    · simp [hhost]
    · simp [hhost,Ne.symm hhost]

theorem lookup_addrs (wanted : Option Bytes) (host : Bytes) :
    (absorb serviceType wanted .empty records).addrs.lookup host = lastAddress records host := by
  refine (Dict.foldl_last_write (fun m : Maps => m.addrs.lookup host) ?_ records .empty).trans (or_none)
  rintro m ⟨owner,record⟩
  cases record with
  | ptr name =>
    rw [learn]
    split <;> rfl
  | srv target port | txt strings => rfl
  | a ip =>
    rw [learn,Dict.lookup_insert_if]
    by_cases hhost : owner = host
    · simp [hhost]
    · simp [hhost,Ne.symm hhost]

/-- The first key decides, since all of them are of the instance that is wanted. -/
theorem resolve_cons (h : serviceInstanceName serviceType target = want) :
    resolve serviceType (some want) m (target::rest) = (m.srvs.lookup target).bind fun srv =>
      (m.addrs.lookup srv.1).map fun ip => ⟨want,srv.1,ip,srv.2,(m.txts.lookup target).getD ∅⟩ := by
  rw [resolve]
  simp only [h,any_some,bne_self_eq_false,Bool.false_eq_true,if_false]
  cases m.srvs.lookup target with
  | none => rfl
  | some srv =>
    simp only [bind_eq_bind,bind_some]
    cases m.addrs.lookup srv.1 <;> rfl

/-- The search finds that address and port for the instance, in whatever order it goes through the map. -/
def Found (serviceType want : Bytes) (port : ℕ) (ip : Ip) (m : Maps) : Prop :=
  ∀ keys, keys.Perm m.ptrs.keys → ∃ ep, resolve serviceType (some want) m keys = some ep ∧
    ep.inst = want ∧ ep.ip = ip ∧ ep.port = port

end

/-- Whatever has been received besides the three records of an instance: the search after that finds the
address and port exactly if every target that a PTR record gives for the instance is also the host
in an SRV record, the last of which has the port, and the last address of that host is the address. -/
theorem found_iff {serviceType inst host : Bytes} {port : ℕ} {ip : Ip} {responses : List (List (Bytes × Record))}
    (h : Announced serviceType inst host port ip responses.flatten) :
    Found serviceType inst port ip (responses.foldl (absorb serviceType (some inst)) .empty) ↔
      ∀ owner target, (owner,.ptr target) ∈ responses.flatten → serviceInstanceName serviceType target = inst →
        lastPort responses.flatten target = some port ∧ lastAddress responses.flatten target = some ip := by
  have hmaps : responses.foldl (absorb serviceType (some inst)) .empty =
      absorb serviceType (some inst) .empty responses.flatten := by
    rw [absorb,foldl_flatten]
    rfl
  rw [hmaps]
  have hresolve : ∀ {target rest}, serviceInstanceName serviceType target = inst →
      ((∃ ep, resolve serviceType (some inst) (absorb serviceType (some inst) .empty responses.flatten)
        (target::rest) = some ep ∧ ep.inst = inst ∧ ep.ip = ip ∧ ep.port = port) ↔
      lastPort responses.flatten target = some port ∧ lastAddress responses.flatten target = some ip) := by
    intro target rest htarget
    rw [resolve_cons htarget,lookup_srvs]
    cases hport : lastPort responses.flatten target with
    | none => simp
    | some p =>
      simp only [map_some,bind_some,lookup_addrs]
      cases haddress : lastAddress responses.flatten target with
      | none => simp
      | some a =>
        simp
        tauto
  constructor
  · intro hfound owner target hmem htarget
    have hkey := mem_ptrs_iff.mpr ⟨htarget,owner,hmem⟩
    exact (hresolve htarget).mp (hfound _ (perm_cons_erase hkey).symm)
  · intro hall keys hperm
    have hkey := mem_ptrs_iff.mpr ⟨serviceInstanceName_target serviceType inst,serviceType,h.ptr⟩
    cases keys with
    | nil => exact absurd (hperm.symm.subset hkey) (not_mem_nil)
    | cons target rest =>
      obtain ⟨htarget,owner,hmem⟩ := mem_ptrs_iff.mp (hperm.subset mem_cons_self)
      exact (hresolve htarget).mpr (hall owner target hmem htarget)

/-- `_adb-tls-pairing._tcp.local`. -/
def PAIRING_TYPE : Bytes :=
  [95,97,100,98,45,116,108,115,45,112,97,105,114,105,110,103,46,95,116,99,112,46,108,111,99,97,108]

/-- `studio-x`. -/
def studio : Bytes := [115,116,117,100,105,111,45,120]

/-- `phone.local`. -/
def phone : Bytes := [112,104,111,110,101,46,108,111,99,97,108]

/-- The answer of a phone: the PTR record of the service, the SRV record of its instance `studio-x` with
`phone.local` and port 37661, and the address 192.168.1.7 of that host. -/
def answer : Bytes :=
  [0,0,132,0,0,0,0,3,0,0,0,0,
    16,95,97,100,98,45,116,108,115,45,112,97,105,114,105,110,103,4,95,116,99,112,5,108,111,99,97,108,0,
    0,12,0,1,0,0,0,120,0,11, 8,115,116,117,100,105,111,45,120,192,12,
    192,51, 0,33,0,1,0,0,0,120,0,19, 0,0,0,0,147,29, 5,112,104,111,110,101,5,108,111,99,97,108,0,
    192,80, 0,1,0,1,0,0,0,120,0,4, 192,168,1,7]

/-- Its records. -/
def answered : List (Bytes × Record) :=
  [(PAIRING_TYPE,.ptr (instanceTarget PAIRING_TYPE studio)),
    (instanceTarget PAIRING_TYPE studio,.srv phone 37661),(phone,.a (192,168,1,7))]

/-- The same with the instance as its own host. -/
def ownHost : List (Bytes × Record) :=
  [(PAIRING_TYPE,.ptr (instanceTarget PAIRING_TYPE studio)),
    (instanceTarget PAIRING_TYPE studio,.srv (instanceTarget PAIRING_TYPE studio) 37661),
    (instanceTarget PAIRING_TYPE studio,.a (192,168,1,7))]

theorem found_ownHost : Found PAIRING_TYPE studio 37661 (192,168,1,7)
    ([ownHost].foldl (absorb PAIRING_TYPE (some studio)) .empty) := by
  have hannounced : Announced PAIRING_TYPE studio (instanceTarget PAIRING_TYPE studio) 37661 (192,168,1,7)
      [ownHost].flatten := ⟨by decide,by decide,by decide⟩
  refine (found_iff hannounced).mpr fun owner target hmem htarget => ?_
  obtain ⟨rfl,rfl⟩ : owner = PAIRING_TYPE ∧ target = instanceTarget PAIRING_TYPE studio := by
    simpa [ownHost] using hmem
  decide

/-- The three records are in the answer, and the search goes on until the deadline. -/
theorem answer_ignored : parseResponse answer = some answered ∧
    Announced PAIRING_TYPE studio phone 37661 (192,168,1,7) answered ∧
    ¬ Found PAIRING_TYPE studio 37661 (192,168,1,7) (absorb PAIRING_TYPE (some studio) .empty answered) ∧
    discover PAIRING_TYPE (some studio) (fun m => m.keys) [some answer] .empty = some none := by
  refine ⟨by decide +kernel,⟨by decide,by decide,by decide⟩,?_,by decide +kernel⟩
  intro h
  obtain ⟨ep,hep,-⟩ := h [instanceTarget PAIRING_TYPE studio] (by decide)
  have hnone : resolve PAIRING_TYPE (some studio) (absorb PAIRING_TYPE (some studio) .empty answered)
      [instanceTarget PAIRING_TYPE studio] = none := by decide
  cases hep.symm.trans hnone

end AdbShare.Mdns
