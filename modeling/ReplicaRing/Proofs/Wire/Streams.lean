import ReplicaRing.Proofs.Wire.Canonical
import ReplicaRing.Proofs.Wire.Frames

/-!
# Streams of frames

A connection carries frames of several kinds, one after the other, and then perhaps the bytes of a
file. Both sides know which kind comes next. Whatever is written is read back to the last byte;
whatever else is read is bounded by what came, and becomes a value that is written at most as long.
-/
namespace ReplicaRing.Wire

/-- What a frame can carry. -/
inductive Payload
  | message | fileMessage | snapshot | introducerRequest | introducerReply
deriving DecidableEq, Repr

namespace Payload

/-- The values of a payload. -/
abbrev Value : Payload → Type
  | message => Message
  | fileMessage => FileMessage
  | snapshot => Snapshot
  | introducerRequest => IntroducerRequest
  | introducerReply => IntroducerReply

variable {p : Payload}

instance : Codec p.Value :=
  match p with
  | message => inferInstanceAs (Codec Message)
  | fileMessage => inferInstanceAs (Codec FileMessage)
  | snapshot => inferInstanceAs (Codec Snapshot)
  | introducerRequest => inferInstanceAs (Codec IntroducerRequest)
  | introducerReply => inferInstanceAs (Codec IntroducerReply)

instance : LawfulCodec p.Value :=
  match p with
  | message => inferInstanceAs (LawfulCodec Message)
  | fileMessage => inferInstanceAs (LawfulCodec FileMessage)
  | snapshot => inferInstanceAs (LawfulCodec Snapshot)
  | introducerRequest => inferInstanceAs (LawfulCodec IntroducerRequest)
  | introducerReply => inferInstanceAs (LawfulCodec IntroducerReply)

instance : CanonicalCodec p.Value :=
  match p with
  | message => inferInstanceAs (CanonicalCodec Message)
  | fileMessage => inferInstanceAs (CanonicalCodec FileMessage)
  | snapshot => inferInstanceAs (CanonicalCodec Snapshot)
  | introducerRequest => inferInstanceAs (CanonicalCodec IntroducerRequest)
  | introducerReply => inferInstanceAs (CanonicalCodec IntroducerReply)

instance : Extent p.Value :=
  match p with
  | message => inferInstanceAs (Extent Message)
  | fileMessage => inferInstanceAs (Extent FileMessage)
  | snapshot => inferInstanceAs (Extent Snapshot)
  | introducerRequest => inferInstanceAs (Extent IntroducerRequest)
  | introducerReply => inferInstanceAs (Extent IntroducerReply)

end Payload

/-- A value and its kind. -/
abbrev Packet := Σ p : Payload, p.Value

/-! ### Headers -/

/-- The number whose bytes these are, highest first. -/
def ofBigEndian (bytes : Bytes) : Nat := bytes.foldl (fun n b => 256 * n + b.toNat) 0

theorem ofBigEndian_eq (bytes : Bytes) : ofBigEndian bytes = ofLittleEndian bytes.reverse := by
  rw [ofBigEndian, ← List.foldr_reverse]
  induction bytes.reverse with
  | nil => rfl
  | cons b bytes ih => rw [List.foldr_cons, ih, ofLittleEndian, Nat.add_comm]

theorem littleEndian_ofLittleEndian (bytes : Bytes) :
    littleEndian bytes.length (ofLittleEndian bytes) = bytes := by
  induction bytes with
  | nil => rfl
  | cons b bytes ih =>
    have hb := b.toNat_lt
    have hlow : UInt8.ofNat (b.toNat + 256 * ofLittleEndian bytes) = b := by
      rw [← UInt8.toNat_inj, UInt8.toNat_ofNat']
      omega
    have hhigh : (b.toNat + 256 * ofLittleEndian bytes) / 256 = ofLittleEndian bytes := by omega
    rw [List.length_cons, ofLittleEndian, littleEndian, hlow, hhigh, ih]

namespace Frame

variable {α : Type} [Codec α] {x : α} {stream body rest : Bytes}

theorem ofBigEndian_header {n : Nat} (h : n ≤ maxBody) : ofBigEndian (header n) = n := by
  rw [ofBigEndian_eq, ofLittleEndian_header h]

theorem header_of_take (h : 4 ≤ stream.length) :
    header (ofLittleEndian (stream.take 4).reverse) = stream.take 4 := by
  have hinverse := littleEndian_ofLittleEndian (stream.take 4).reverse
  rw [List.length_reverse, List.length_take, Nat.min_eq_left h] at hinverse
  rw [header, hinverse, List.reverse_reverse]

/-- What is cut off a stream is a frame. -/
theorem of_cut_whole (h : cut stream = .whole body rest) :
    stream = header body.length ++ body ++ rest ∧ body.length ≤ maxBody := by
  unfold cut at h
  dsimp only at h
  split at h
  · cases h
  · rename_i hfour
    rw [List.length_take] at hfour
    have hheader := header_of_take (show 4 ≤ stream.length by omega)
    split at h
    · cases h
    · split at h
      · cases h
      · rename_i hshort
        cases h
        have hlength : ((stream.drop 4).take (ofLittleEndian (stream.take 4).reverse)).length =
            ofLittleEndian (stream.take 4).reverse := by
          rw [List.length_take] at hshort ⊢
          omega
        rw [hlength, hheader, List.append_assoc, List.take_append_drop, List.take_append_drop]
        exact ⟨rfl, by omega⟩

/-! ### Writing and reading -/

theorem read_frame [LawfulCodec α] (h : Fits x) (rest : Bytes) :
    read (header (Wire.encode x).length ++ Wire.encode x ++ rest) = .ok (x, rest) := by
  rw [read, cut_whole h]
  simp only [decode_encode h]

/-- The frames of some values, one after the other, unless one of them is too long. -/
def writeAll : List Packet → Except ExchangeFault Bytes
  | [] => .ok []
  | ⟨_, x⟩ :: packets => do
    let frame ← encode x
    let frames ← writeAll packets
    return frame ++ frames

/-- Reads frames of the given kinds, and returns what follows them. -/
def readAll : List Payload → Bytes → Except ExchangeFault (List Packet × Bytes)
  | [], stream => .ok ([], stream)
  | p :: ps, stream => do
    let (x, stream) ← read (α := p.Value) stream
    let (packets, stream) ← readAll ps stream
    return (⟨p, x⟩ :: packets, stream)

/-- What is written for some packets is read back, whatever follows it. -/
theorem readAll_writeAll {sent : List Packet} (h : ∀ packet ∈ sent, Fits packet.2) :
    ∃ frames, writeAll sent = .ok frames ∧
      ∀ body, readAll (sent.map Sigma.fst) (frames ++ body) = .ok (sent, body) := by
  induction sent with
  | nil => exact ⟨[], rfl, fun _ => rfl⟩
  | cons packet sent ih =>
    obtain ⟨p, x⟩ := packet
    obtain ⟨hx, hsent⟩ := List.forall_mem_cons.mp h
    obtain ⟨frames, hframes, hread⟩ := ih hsent
    refine ⟨header (Wire.encode x).length ++ Wire.encode x ++ frames, ?_, fun body => ?_⟩
    · rw [writeAll, encode_of_fits hx, hframes]
      rfl
    · rw [List.map_cons, readAll, List.append_assoc _ frames, read_frame hx]
      change (readAll (sent.map Sigma.fst) (frames ++ body) >>= _) = _
      rw [hread]
      rfl

end Frame

theorem decodeDatagram_encodeDatagram {d : Datagram}
    (h : d.event.subject.host.utf8ByteSize < 2 ^ 64) :
    decodeDatagram (encodeDatagram d) = .ok d := by
  have hkind : (encode d.event.kind).length = 4 := length_encodeVariant _ _
  have hevent := rereads_event (rereads _ (by omega)) (rereads_member (rereads_text h))
  have hread := rereads_datagram (rereads_word64 d.seq) hevent []
  rw [List.append_nil] at hread
  rw [decodeDatagram, encodeDatagram, decode, hread]
  rfl

/-- A value becomes a frame exactly if its encoding is not too long: four bytes that say its length,
highest first, and the encoding. The frame is read back to its last byte, and so is any sequence of
frames with whatever follows it. A datagram is read back as well, where a word can say how long the
name of the host is, as it can of every text in memory. -/
theorem reads_what_is_written :
    (∀ (p : Payload) (x : p.Value),
      (Frame.maxBody < (encode x).length →
        Frame.encode x = .error (.frameTooLarge (encode x).length)) ∧
      ((encode x).length ≤ Frame.maxBody → ∃ a b c d : UInt8,
        ofBigEndian [a, b, c, d] = (encode x).length ∧
        Frame.encode x = .ok ([a, b, c, d] ++ encode x) ∧
        ∀ rest, Frame.read ([a, b, c, d] ++ encode x ++ rest) = .ok (x, rest))) ∧
    (∀ sent : List Packet, (∀ packet ∈ sent, (encode packet.2).length ≤ Frame.maxBody) →
      ∃ frames, Frame.writeAll sent = .ok frames ∧
        ∀ body, Frame.readAll (sent.map Sigma.fst) (frames ++ body) = .ok (sent, body)) ∧
    ∀ d : Datagram, d.event.subject.host.utf8ByteSize < 2 ^ 64 →
      decodeDatagram (encodeDatagram d) = .ok d := by
  refine ⟨fun p x => ⟨fun hlong => ?_, fun hfits => ?_⟩, fun sent hall => ?_, fun d hhost => ?_⟩
  · exact Frame.encode_of_not_fits (Nat.not_le.mpr hlong)
  · have hsays := Frame.ofBigEndian_header hfits
    have hencode := Frame.encode_of_fits hfits
    have hread := Frame.read_frame hfits
    obtain ⟨a, b, c, d, hheader⟩ := List.length_eq_four.mp (Frame.length_header (encode x).length)
    rw [hheader] at hsays hencode hread
    exact ⟨a, b, c, d, hsays, hencode, hread⟩
  · exact Frame.readAll_writeAll hall
  · exact decodeDatagram_encodeDatagram hhost

/-- A reply of the introducer, an offer of a file, and the bytes of the file; and a ping. -/
theorem offer_is_read_back :
    let offer : FileMessage :=
      { kind := .put, destination := .fileServer, file := "a_1.txt", version := some 1,
        files := some (Std.ExtTreeSet.ofList ["b", "a"] compare), size := some 3 }
    let sent : List Packet :=
      [⟨.introducerReply, ⟨some ⟨"127.0.0.1", 7000, 1⟩⟩⟩, ⟨.fileMessage, offer⟩]
    let ping : Datagram := ⟨1, ⟨.ping, ⟨"127.0.0.1", 7000, 1⟩⟩⟩
    (∃ frames, Frame.writeAll sent = .ok frames ∧
      Frame.readAll [.introducerReply, .fileMessage] (frames ++ [1, 2, 3]) =
        .ok (sent, [1, 2, 3])) ∧
    decodeDatagram (encodeDatagram ping) = .ok ping := by
  intro offer sent ping
  obtain ⟨-, hframes, hdatagrams⟩ := reads_what_is_written
  have hfits : ∀ packet ∈ sent, (encode packet.2).length ≤ Frame.maxBody := by decide +kernel
  obtain ⟨frames, hwrite, hread⟩ := hframes sent hfits
  exact ⟨⟨frames, hwrite, hread [1, 2, 3]⟩, hdatagrams ping (by decide +kernel)⟩

/-! ### Any bytes -/

/-- The value that is read of a body, however the body came about: no text, list, set or map in it
is larger than the body, and its own encoding is not longer. -/
structure Settled {α : Type} [Codec α] [Extent α] (body : Bytes) (x : α) : Prop where
  sizes_le : ∀ n ∈ sizes x, n ≤ body.length
  length_le : (encode x).length ≤ body.length
  decode_encode : decode (encode x) = .ok x

theorem Settled.of_decode {α : Type} [Codec α] [CanonicalCodec α] [Extent α] {x : α}
    {body : Bytes} (h : decode body = .ok x) : Settled body x := by
  unfold decode at h
  cases hread : read (α := α) body with
  | error fault =>
    rw [hread] at h
    cases h
  | ok taken =>
    rw [hread] at h
    cases h
    obtain ⟨hlength, hrereads⟩ := takes hread
    have hself := hrereads []
    rw [List.append_nil] at hself
    refine ⟨fun n hn => ?_, by omega, ?_⟩
    · have hsize := Extent.le_length taken.1 n hn
      omega
    · rw [decode, hself]
      rfl

theorem Frame.of_read {α : Type} [Codec α] {stream rest : Bytes} {x : α}
    (h : Frame.read stream = .ok (x, rest)) : ∃ body, decode body = .ok x ∧
      body.length ≤ maxBody ∧ stream = header body.length ++ body ++ rest := by
  unfold Frame.read at h
  split at h
  · cases h
  · cases h
  · cases h
  · rename_i body rest hcut
    split at h
    · rename_i hdecode
      cases h
      obtain ⟨hstream, hlength⟩ := of_cut_whole hcut
      exact ⟨body, hdecode, hlength, hstream⟩
    · cases h

/-- Whatever bytes come, a frame or a datagram is refused or gives a value that no longer depends on
what the bytes announced: the value is bounded by the body, it can be written in a body no longer,
and from there it is read again. A list that announces more elements than bytes are left is given up
before as many have been read as there are bytes. Of the entries of a map that have one key the last
counts. -/
theorem reads_are_bounded :
    (∀ (p : Payload) (stream : Bytes), (∃ fault, Frame.read (α := p.Value) stream = .error fault) ∨
      ∃ (x : p.Value) (body rest frame : Bytes), Frame.read stream = .ok (x, rest) ∧
        stream = Frame.header body.length ++ body ++ rest ∧ Settled body x ∧
        Frame.encode x = .ok frame ∧ ∀ more, Frame.read (frame ++ more) = .ok (x, more)) ∧
    (∀ bytes : Bytes, (∃ fault, decodeDatagram bytes = .error fault) ∨
      ∃ d, decodeDatagram bytes = .ok d ∧ Settled bytes d ∧
        decodeDatagram (encodeDatagram d) = .ok d) ∧
    (∀ (α : Type) [Codec α] [LawfulCodec α] [CanonicalCodec α] (bytes : Bytes) (n : Nat),
      bytes.length < n → ∃ k xs rest fault, k ≤ bytes.length ∧
        readMany (read (α := α)) k bytes = .ok (xs, rest) ∧ read (α := α) rest = .error fault ∧
        readMany (read (α := α)) n bytes = .error fault) ∧
    ∀ (bytes rest : Bytes) (versions : VersionMap), read bytes = .ok (versions, rest) →
      ∃ entries : List (UInt64 × MemberSet), read bytes = .ok (entries, rest) ∧
        ∀ v, versions[v]? = entries.reverse.lookup v := by
  refine ⟨fun p stream => ?_, fun bytes => ?_, fun α _ _ _ bytes n h => readMany_spent h,
    fun bytes rest versions h => lookup_of_read_map h⟩
  · cases hread : Frame.read (α := p.Value) stream with
    | error fault => exact .inl ⟨fault, rfl⟩
    | ok taken =>
      obtain ⟨x, rest⟩ := taken
      obtain ⟨body, hdecode, hlength, hstream⟩ := Frame.of_read hread
      have hsettled := Settled.of_decode hdecode
      have hfits : Frame.Fits x := Nat.le_trans hsettled.length_le hlength
      exact .inr ⟨x, body, rest, _, rfl, hstream, hsettled, Frame.encode_of_fits hfits,
        Frame.read_frame hfits⟩
  · cases hdecode : decode (α := Datagram) bytes with
    | error fault => exact .inl ⟨.codec fault, by rw [decodeDatagram, hdecode]; rfl⟩
    | ok d =>
      have hsettled := Settled.of_decode hdecode
      refine .inr ⟨d, by rw [decodeDatagram, hdecode]; rfl, hsettled, ?_⟩
      rw [decodeDatagram, encodeDatagram, hsettled.decode_encode]
      rfl

/-- A body with a version that comes twice, with names unsorted and repeated, and with a byte too
many, stands for a value that is written again without them. An endless list is not read at all. -/
theorem names_are_settled :
    let first : Member := ⟨"a", 1, 1⟩
    let second : Member := ⟨"a", 2, 1⟩
    let versions := encode [((1 : UInt64), [first]), (1, [second])]
    let body := encode FileKind.ok ++ encode Destination.client ++ encode "" ++
      encode ([] : List Member) ++ [0, 1] ++ versions ++ [1] ++ encode ["b", "a", "b"] ++ [0, 9]
    let stream := Frame.header body.length ++ body ++ [7]
    (∃ (m : FileMessage) (frame : Bytes), Frame.read stream = .ok (m, [7]) ∧
      m.files.map (·.toList) = some ["a", "b"] ∧
      m.versions.bind (·[(1 : UInt64)]?) = some (.ofList [second]) ∧
      Frame.encode m = .ok frame ∧ ∀ more, Frame.read (frame ++ more) = .ok (m, more)) ∧
    (∃ found : VersionMap, read versions = .ok (found, []) ∧
      found[(1 : UInt64)]? = some (.ofList [second])) ∧
    ∃ fault, readMany (read (α := String)) (2 ^ 64 - 1) [1, 0] = .error fault := by
  intro first second versions body stream
  obtain ⟨hframes, -, hlists, hmaps⟩ := reads_are_bounded
  refine ⟨?_, ?_, ?_⟩
  · have hvalues : (Frame.read (α := FileMessage) stream).map (fun taken =>
        (taken.1.files.map (·.toList), taken.1.versions.bind (·[(1 : UInt64)]?), taken.2)) =
          .ok (some ["a", "b"], some (.ofList [second]), [7]) := by
      decide +kernel
    obtain ⟨fault, hfault⟩ | ⟨m, -, rest, frame, hread, -, -, hframe, hagain⟩ :=
      hframes .fileMessage stream
    · cases (congrArg _ hfault).symm.trans hvalues
    · rw [hread] at hvalues
      obtain ⟨hfiles, hlater⟩ := Prod.mk.inj (Except.ok.inj hvalues)
      obtain ⟨hversions, hrest⟩ := Prod.mk.inj hlater
      cases hrest
      exact ⟨m, frame, hread, hfiles, hversions, hframe, hagain⟩
  · have hentries : read (α := List (UInt64 × MemberSet)) versions =
        .ok ([(1, .ofList [first]), (1, .ofList [second])], []) := by decide +kernel
    cases hread : read (α := VersionMap) versions with
    | error fault =>
      have hok : (read (α := VersionMap) versions).isOk = true := by decide +kernel
      rw [hread] at hok
      cases hok
    | ok taken =>
      obtain ⟨found, rest⟩ := taken
      obtain ⟨entries, hentries', hlast⟩ := hmaps versions rest found hread
      cases hentries'.symm.trans hentries
      exact ⟨found, rfl, hlast 1⟩
  · obtain ⟨-, -, -, fault, -, -, -, hfault⟩ := hlists String [1, 0] (2 ^ 64 - 1) (by decide)
    exact ⟨fault, hfault⟩

end ReplicaRing.Wire
