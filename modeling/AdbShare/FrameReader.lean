import AdbShare.Framing
import AdbShare.Packet

/-! The reader task of a connection takes the device's bytes apart into messages. It trusts
payloads up to its own limit, a quarter of the one that the handshake announces to the device:
a frame between the two ends the connection. -/
namespace AdbShare.FrameReader

open Message List

/-- The CNXN message of `open_inner`, with the largest payload this host takes. -/
def connectMessage (banner : Bytes) : Message := ⟨.connect,ADB_VERSION,0x100000,banner⟩

/-- The largest payload that a CNXN message announces. -/
def maxPayload (cnxn : Message) : ℕ := cnxn.arg1.toNat

/-- How the reader of a connection finds its frames. -/
def framing : Framing UInt8 where
  header := HEADER_LEN
  header_pos := by decide
  bodyLen := dataLength
  limit := MAX_PAYLOAD

/-- The loop of the reader task on what arrives, with the messages that it dispatches; what
does not decode is skipped. -/
def readerTask (arriving : List Bytes) : List Message × Framing.Ending :=
  let frames := framing.exactLoop arriving.flatten.length arriving
  (frames.1.filterMap fun f => (decode f.1 f.2).toOption,frames.2)

def frameOf (m : Message) : Framing.Frame UInt8 := (m.header,m.payload)

/-- The bytes of the messages, one after the other. -/
def wire (ms : List Message) : Bytes := ((ms.map frameOf).map Framing.flat).flatten

section

variable {ms : List Message} {arriving : List Bytes} {m : Message}

theorem fits_frameOf (h : m.payload.length < 2^32) : framing.Fits (frameOf m) := ⟨header_length m,dataLength_header h⟩

theorem decode_frames (h : ∀ m ∈ ms, m.payload.length < 2^32) :
    (ms.map frameOf).filterMap (fun f => (decode f.1 f.2).toOption) = ms := by
  induction ms with
  | nil => rfl
  | cons m ms ih =>
    have hm : (decode (frameOf m).1 (frameOf m).2).toOption = some m := by
      change (decode m.header m.payload).toOption = some m
      rw [decode_header (h m mem_cons_self)]
      rfl
    rw [map_cons,filterMap_cons,hm,ih fun m hm => h m (mem_cons_of_mem _ hm)]

theorem readerTask_eq (ms : List Message) (h : arriving.flatten = wire ms) :
    readerTask arriving = ((framing.parse (wire ms)).1.filterMap (fun f => (decode f.1 f.2).toOption),
      (framing.parse (wire ms)).2) := by
  rw [readerTask,Framing.exactLoop_eq le_rfl,h]

/-- However the bytes of frames within the announced size are split into reads: the reader
dispatches them all in order and stays alive exactly if none is over its own limit. -/
theorem reader_keeps_up_iff (banner : Bytes) (hms : ∀ m ∈ ms, m.payload.length ≤ maxPayload (connectMessage banner))
    (harrive : arriving.flatten = wire ms) :
    readerTask arriving = (ms,.waiting) ↔ ∀ m ∈ ms, m.payload.length ≤ MAX_PAYLOAD := by
  have hbound : maxPayload (connectMessage banner) < 2^32 := UInt32.toNat_lt _
  have hsmall : ∀ m ∈ ms, m.payload.length < 2^32 := fun m hm => lt_of_le_of_lt (hms m hm) hbound
  have hfits : ∀ f ∈ ms.map frameOf, framing.Fits f := by
    intro f hf
    obtain ⟨m,hm,rfl⟩ := mem_map.mp hf
    exact fits_frameOf (hsmall m hm)
  have hlimit : (∀ f ∈ ms.map frameOf, f.2.length ≤ framing.limit) ↔ ∀ m ∈ ms, m.payload.length ≤ MAX_PAYLOAD :=
    forall_mem_map
  rw [readerTask_eq ms harrive,← hlimit]
  constructor
  · intro h
    exact Framing.within_of_waiting hfits (Prod.ext_iff.mp h).2
  · intro h
    rw [wire,Framing.parse_within hfits h,decode_frames hsmall]

def twoFrames : List Message := [⟨.okay,7,1,[]⟩,⟨.write,7,1,[104,105]⟩]

/-- The first header comes in two reads, the payload of the second frame in two others. -/
theorem reader_keeps_up_small :
    readerTask [(wire twoFrames).take 10,((wire twoFrames).drop 10).take 39,(wire twoFrames).drop 49] = (twoFrames,.waiting) :=
  (reader_keeps_up_iff [] (by decide) (by decide +kernel)).mpr (by decide)

/-- A message over the reader's limit is not dispatched, and the reader ends. -/
theorem readerTask_oversized (hsmall : m.payload.length < 2^32) (h : MAX_PAYLOAD < m.payload.length) :
    readerTask [wire [m]] = ([],.oversized m.payload.length) := by
  have hparse := Framing.parse_cons (fits_frameOf hsmall) []
  rw [if_pos (show framing.limit < (frameOf m).2.length from h),append_nil] at hparse
  have hwire : wire [m] = Framing.flat (frameOf m) := append_nil _
  rw [readerTask_eq [m] (append_nil _),hwire,hparse]
  rfl

theorem large_frame_ends_reader : ∃ m : Message, m.payload.length ≤ maxPayload (connectMessage []) ∧
    readerTask [wire [m]] = ([],.oversized (MAX_PAYLOAD+1)) := by
  obtain ⟨payload,hlen⟩ : ∃ payload : Bytes, payload.length = MAX_PAYLOAD+1 :=
    ⟨List.replicate (MAX_PAYLOAD+1) 0,length_replicate⟩
  have h := readerTask_oversized (m:=⟨.write,7,1,payload⟩) (by rw [hlen]; decide) (by rw [hlen]; decide)
  rw [hlen] at h
  exact ⟨_,by rw [hlen]; decide,h⟩

end

end AdbShare.FrameReader
