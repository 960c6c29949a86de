import AdbShare.Pair
import AdbShare.Transition

/-! The records of a pairing connection: two ciphers under one key, and somebody between them who
delivers records out of order, twice, or of their own making. -/
namespace AdbShare.Records

open Pairing Prog Transition List Function

/-- An ideal AEAD under one key: a record opens under the nonce of its sealing only. -/
structure Aead where
  encrypt : (nonce plain : Bytes) → Bytes
  decrypt : (nonce record : Bytes) → Option Bytes
  ideal : ∀ i j p, decrypt (nonce j) (encrypt (nonce i) p) = if nonce j = nonce i then some p else none

/-- A cipher, the nonces and plaintexts that it has sealed, and the records and plaintexts that
it has opened. -/
structure Side (Key : Type) where
  cipher : PairingCipher Key
  sealed : List (Bytes × Bytes)
  opened : List (Bytes × Bytes)

inductive Event
  | encrypt (t : Bool) (plain : Bytes)
  | deliver (t : Bool) (record : Bytes)

variable {Key : Type} (A : Aead)

def act : (β : Type) → Act Key β → List (Bytes × Bytes) → Option (β × List (Bytes × Bytes))
  | _, .encrypt _ n plain, sealed => some (A.encrypt n plain,sealed++[(n,plain)])
  | _, .decrypt _ n record, sealed => some (A.decrypt n record,sealed)
  | _, _, _ => none

def step (s : Bool → Side Key) : Event → Option (Bool → Side Key)
  | .encrypt t plain => (((s t).cipher.encrypt plain).play (act A) (s t).sealed).map fun r =>
    update s t ⟨r.1.2,r.2,(s t).opened⟩
  | .deliver t record => (((s t).cipher.decrypt record).play (act A) (s t).sealed).map fun r =>
    match r.1 with
    | .error _ => s
    | .ok (plain,cipher) => update s t ⟨cipher,r.2,(s t).opened++[(record,plain)]⟩

/-- What the other side should open. -/
def Side.records (m : Side Key) : List (Bytes × Bytes) := m.sealed.map fun e => (A.encrypt e.1 e.2,e.2)

/-- Fewer than 2^64 records are sealed; a record that is delivered is one of the other side's or
forged, and then it does not open. -/
def Fair (s : Bool → Side Key) : Event → Prop
  | .encrypt t _ => (s t).sealed.length+1 < 2^64
  | .deliver t record => (∃ plain, (record,plain) ∈ (s !t).records A) ∨ ∀ n, A.decrypt n record = none

/-- From one side to the other. -/
structure Lane (m m' : Side Key) : Prop where
  nonces : m.sealed.map Prod.fst = (range m.cipher.encSequence).map nonce
  few : m.sealed.length < 2^64
  dec : m'.cipher.decSequence = m'.opened.length
  opened : m'.opened <+: m.records A

section

variable {A} {s s' : Bool → Side Key} {t : Bool} {record plain : Bytes} {m m' : Side Key} {i j k : ℕ}
  {e : Bytes × Bytes}

theorem nonce_inj (hi : i < 2^64) (hj : j < 2^64) (h : nonce i = nonce j) : i = j := by
  rw [← fromLe_toLe (show i < 256^8 from hi),append_cancel_right h,fromLe_toLe (show j < 256^8 from hj)]

theorem Lane.enc (h : Lane A m m') : m.cipher.encSequence = m.sealed.length := by
  simpa using (congrArg length h.nonces).symm

theorem Lane.nonce_eq (h : Lane A m m') (hk : m.sealed[k]? = some e) : k < 2^64 ∧ e.1 = nonce k := by
  have hlen : k < m.sealed.length := (List.getElem?_eq_some_iff.mp hk).1
  have hn := congrArg (·[k]?) h.nonces
  simp only [getElem?_map,hk,h.enc,getElem?_range hlen,Option.map_some,Option.some.injEq] at hn
  exact ⟨hlen.trans h.few,hn⟩

/-- What opens is the next record. -/
theorem Lane.next (h : Lane A m m') (hfair : (∃ plain, (record,plain) ∈ m.records A) ∨ ∀ n, A.decrypt n record = none)
    (ho : A.decrypt (nonce m'.opened.length) record = some plain) : m'.opened++[(record,plain)] <+: m.records A := by
  obtain ⟨_,hmem⟩ | hforged := hfair
  · obtain ⟨e,he,heq⟩ := mem_map.mp hmem
    obtain ⟨rfl,-⟩ := Prod.mk.inj heq
    obtain ⟨k,hk⟩ := mem_iff_getElem?.mp he
    obtain ⟨hlt,hn⟩ := h.nonce_eq hk
    have hlen : m'.opened.length < 2^64 := (h.opened.length_le.trans_eq (length_map _)).trans_lt h.few
    rw [hn,A.ideal] at ho
    split_ifs at ho with hnonce
    cases ho
    obtain rfl := nonce_inj hlen hlt hnonce
    rw [prefix_iff_eq_take,length_append,length_singleton,take_add_one,← prefix_iff_eq_take.mp h.opened,
      Side.records,getElem?_map,hk]
    rfl
  · cases (hforged _).symm.trans ho

theorem lanes_update (hsend : Lane A m (s !t)) (hreceive : Lane A (s !t) m) (t' : Bool) :
    Lane A (update s t m t') (update s t m !t') := by
  by_cases htt : t' = t
  · subst htt
    simpa using hsend
  · obtain rfl := Bool.eq_not_of_ne htt
    simpa using hreceive

theorem step_deliver : step A s (.deliver t record) = some (match A.decrypt (nonce (s t).cipher.decSequence) record with
    | none => s
    | some plain => update s t ⟨{ (s t).cipher with decSequence := (s t).cipher.decSequence+1 },(s t).sealed,
        (s t).opened++[(record,plain)]⟩) := by
  simp only [step,PairingCipher.decrypt,play_perform_bind,act,Option.bind_some]
  cases A.decrypt _ record <;> rfl

theorem step_lanes (s : Bool → Side Key) (e : Event) (s' : Bool → Side Key) (h : ∀ t, Lane A (s t) (s !t))
    (hfair : Fair A s e) (hs : step A s e = some s') : ∀ t, Lane A (s' t) (s' !t) := by
  have hback : ∀ t, Lane A (s !t) (s t) := fun t => by simpa using h !t
  cases e with
  | encrypt t plain =>
    obtain rfl := Option.some.inj hs
    refine lanes_update ⟨?_,?_,(h t).dec,(h t).opened.trans ?_⟩ ⟨(hback t).nonces,(hback t).few,(hback t).dec,(hback t).opened⟩
    · simp [(h t).nonces,range_succ]
    · simpa [Fair] using hfair
    · simp [Side.records]
  | deliver t record =>
    rw [step_deliver] at hs
    obtain rfl := Option.some.inj hs
    split
    · exact h
    · rename_i plain ho
      rw [(hback t).dec] at ho
      exact lanes_update ⟨(h t).nonces,(h t).few,(h t).dec,(h t).opened⟩
        ⟨(hback t).nonces,(hback t).few,by simp [(hback t).dec],(hback t).next hfair ho⟩

end

def init (key : Key) : Bool → Side Key := fun _ => ⟨.new key,[],[]⟩

/-- In every fair run: what a side has opened is what the other has sealed, up to some record;
it has used no nonce twice; and the next record of the other side opens, whatever came before. -/
theorem records_in_order {key : Key} {es : List Event} {s : Bool → Side Key}
    (hfair : Meets (step A) (Fair A) (init key) es) (h : exec (step A) (init key) es = some s) (t : Bool) :
    (s t).opened <+: (s !t).records A ∧ ((s t).sealed.map Prod.fst).Nodup ∧
    ∀ e, ((s !t).records A)[(s t).opened.length]? = some e →
      ∃ s', step A s (.deliver t e.1) = some s' ∧ (s' t).opened = (s t).opened++[e] := by
  have hlanes : ∀ t, Lane A (s t) (s !t) :=
    exec_invariant_of_meets step_lanes (fun _ => ⟨rfl,by simp [init],rfl, nil_prefix⟩) hfair h
  have hback : Lane A (s !t) (s t) := by simpa using hlanes !t
  refine ⟨hback.opened,?_,?_⟩
  · rw [(hlanes t).nonces,(hlanes t).enc]
    refine Nodup.map_on ?_ nodup_range
    intro i hi j hj
    rw [mem_range] at hi hj
    exact nonce_inj (hi.trans (hlanes t).few) (hj.trans (hlanes t).few)
  · intro e he
    rw [Side.records,getElem?_map,Option.map_eq_some_iff] at he
    obtain ⟨e,he,rfl⟩ := he
    rw [step_deliver,hback.dec,(hback.nonce_eq he).2,A.ideal,if_pos rfl]
    exact ⟨_,rfl,by simp⟩

/-- A record is marked, and has its nonce in front. -/
def inFront : Aead where
  encrypt n p := 1::(n++p)
  decrypt n
    | 1::record => if n = record.take 12 then some (record.drop 12) else none
    | _ => none
  ideal i j p := by
    show (if _ then _ else _) = _
    rw [take_left' (by simp [nonce]),drop_left' (by simp [nonce])]

/-- Two records are sealed; the first one is delivered twice, then one without the mark, then the second one. -/
def sent : List Event := [.encrypt true [7],.encrypt true [8],.deliver false (1::(nonce 0++[7])),
  .deliver false (1::(nonce 0++[7])),.deliver false [0],.deliver false (1::(nonce 1++[8]))]

theorem records_in_order_sent : ∃ s, exec (step inFront) (init ()) sent = some s ∧
    (s false).opened <+: (s true).records inFront ∧ (s false).opened.map Prod.snd = [[7],[8]] := by
  have hfair : Meets (step inFront) (Fair inFront) (init ()) sent := by
    refine meets_cons rfl (show _ < _ by decide) (meets_cons rfl (show _ < _ by decide) ?_)
    refine meets_cons rfl (.inl ⟨[7],by decide⟩) (meets_cons rfl (.inl ⟨[7],by decide⟩) ?_)
    exact meets_cons rfl (.inr fun _ => rfl) (meets_cons rfl (.inl ⟨[8],by decide⟩) trivial)
  exact ⟨_,rfl,(records_in_order inFront hfair rfl false).1,by decide⟩

end AdbShare.Records
