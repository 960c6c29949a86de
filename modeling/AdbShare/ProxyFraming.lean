import AdbShare.Framing
import AdbShare.Listing

/-! The byte stream between the proxy client and the device: requests of an op, a length and
the arguments, replies of a length and the status with its data. Each side keeps a buffer and
takes the frames out of it as they come in. -/
namespace AdbShare.ProxyFraming

open Listing List Framing

/-- The frame of `ProxyConn::request`; a request that does not fit is refused before. -/
def requestFrame (op : Op) (args : Bytes) : Except ProxyError Bytes :=
  if args.length > MAX_REQUEST then .error (.tooLarge args.length)
  else if args.length < 2^32 then .ok (op.toU8::(toLe 4 args.length++args))
  else .error (.tooLarge args.length)

/-- How `handle_connection` finds its requests. -/
def requests : Framing UInt8 where
  header := 5
  header_pos := by decide
  bodyLen head := fromLe ((head.drop 1).take 4)
  limit := MAX_REQUEST

/-- The loop of `handle_connection` on what arrives, with what it hands to `dispatch`. -/
def handleConnection (arriving : List Bytes) : List (UInt8 × Bytes) × Ending :=
  let frames := requests.bufferLoop arriving.flatten.length [] arriving
  (frames.1.map fun f => (f.1.headD 0,f.2),frames.2)

/-- How the reader task of a proxy connection finds its replies. -/
def replies : Framing UInt8 where
  header := 4
  header_pos := Nat.succ_pos 3
  bodyLen head := fromLe (head.take 4)
  limit := MAX_RESPONSE_FRAME

/-- The loop of the reader task on what arrives, with the bodies it delivers. -/
def readerTask (arriving : List Bytes) : List Bytes × Ending :=
  let frames := replies.bufferLoop arriving.flatten.length [] arriving
  (frames.1.map Prod.snd,frames.2)

/-- The frame of a request as a header and a body. -/
def requestParts (r : Op × Bytes) : Frame UInt8 := (r.1.toU8::toLe 4 r.2.length,r.2)

def replyParts (out : Bytes) : Frame UInt8 := (toLe 4 out.length,out)

section

variable {op : Op} {args out : Bytes} {r : Op × Bytes} {rs : List (Op × Bytes)} {outs : List Bytes}

theorem requestFrame_eq (h : args.length ≤ MAX_REQUEST) : requestFrame op args = .ok (flat (requestParts (op,args))) := by
  have hsmall : args.length < 2^32 := lt_of_le_of_lt h (by decide)
  rw [requestFrame,if_neg (by omega),if_pos hsmall]
  rfl

theorem fits_requestParts (h : r.2.length ≤ MAX_REQUEST) : requests.Fits (requestParts r) := by
  refine ⟨by simp [requestParts,requests],?_⟩
  change fromLe ((toLe 4 r.2.length).take 4) = r.2.length
  rw [take_of_length_le (by simp),fromLe_toLe (lt_of_le_of_lt h (by decide))]

theorem fits_replyParts (h : out.length ≤ MAX_RESPONSE_FRAME) : replies.Fits (replyParts out) := by
  refine ⟨toLe_length _ _,?_⟩
  change fromLe ((toLe 4 out.length).take 4) = out.length
  rw [take_of_length_le (by simp),fromLe_toLe (lt_of_le_of_lt h (by decide))]

variable {arriving : List Bytes}

theorem handleConnection_eq (h : ∀ r ∈ rs, r.2.length ≤ MAX_REQUEST)
    (ha : arriving.flatten = ((rs.map requestParts).map flat).flatten) :
    handleConnection arriving = (rs.map fun r => (r.1.toU8,r.2),.waiting) := by
  have hparse : requests.parse ((rs.map requestParts).map flat).flatten = (rs.map requestParts,.waiting) := by
    apply parse_within
    · exact forall_mem_map.mpr fun r hr => fits_requestParts (h r hr)
    · exact forall_mem_map.mpr fun r hr => h r hr
  rw [handleConnection,bufferLoop_eq (by simp),nil_append,ha,hparse]
  simp [requestParts]

theorem readerTask_eq (h : ∀ out ∈ outs, out.length ≤ MAX_RESPONSE_FRAME)
    (ha : arriving.flatten = (outs.map frameReply).flatten) : readerTask arriving = (outs,.waiting) := by
  have hflat : outs.map frameReply = (outs.map replyParts).map flat := by
    rw [map_map]
    rfl
  have hparse : replies.parse ((outs.map replyParts).map flat).flatten = (outs.map replyParts,.waiting) := by
    apply parse_within
    · exact forall_mem_map.mpr fun out hout => fits_replyParts (h out hout)
    · exact forall_mem_map.mpr fun out hout => h out hout
  rw [readerTask,bufferLoop_eq (by simp),nil_append,ha,hflat,hparse]
  dsimp only
  rw [map_map]
  exact congrArg (·,Ending.waiting) (map_id outs)

/-- However the two byte streams are split into reads, the device decodes the requests that
were sent and the client delivers the replies that were sent, all and in order. -/
theorem frames_survive_splitting :
    (∀ (sent : List (Op × Bytes)) (frames arriving : List Bytes), (∀ r ∈ sent, r.2.length ≤ MAX_REQUEST) →
      sent.map (fun r => requestFrame r.1 r.2) = frames.map .ok → arriving.flatten = frames.flatten →
      handleConnection arriving = (sent.map fun r => (r.1.toU8,r.2),.waiting)) ∧
    ∀ (sent arriving : List Bytes), (∀ out ∈ sent, out.length ≤ MAX_RESPONSE_FRAME) →
      arriving.flatten = (sent.map frameReply).flatten → readerTask arriving = (sent,.waiting) := by
  refine ⟨?_,fun sent arriving h ha => readerTask_eq h ha⟩
  intro sent frames arriving h hframes ha
  have hok : sent.map (fun r => requestFrame r.1 r.2) = ((sent.map requestParts).map flat).map Except.ok := by
    rw [map_map,map_map]
    exact map_congr_left fun r hr => requestFrame_eq (h r hr)
  have hsame : frames = (sent.map requestParts).map flat :=
    map_injective_iff.mpr (fun _ _ h => Except.ok.inj h) (hframes.symm.trans hok)
  exact handleConnection_eq h (hsame ▸ ha)

/-- Two requests and two replies, with reads that end in the middle of a length and of a frame. -/
theorem split_request_decoded :
    handleConnection [[5,3,0],[0,0,47],[97,98,2,0,0],[0,0]] = ([(5,[47,97,98]),(2,[])],.waiting) ∧
      readerTask [[2,0],[0,0,0],[7,1,0,0],[0,9]] = ([[0,7],[9]],.waiting) :=
  ⟨frames_survive_splitting.1 [(.stat,[47,97,98]),(.close,[])] [[5,3,0,0,0,47,97,98],[2,0,0,0,0]] _
      (by decide) (by decide) (by decide),
    frames_survive_splitting.2 [[0,7],[9]] _ (by decide) (by decide)⟩

end

end AdbShare.ProxyFraming
