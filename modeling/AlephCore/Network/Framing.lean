import AlephCore.Lib.Bytes
import AlephCore.Types.Message
import Mathlib.Data.List.Forall2
import Mathlib.Logic.Function.Basic

/-!
# Framing — messages on a connection between two peers

Mirrors the framing of `network/mod.rs`: a message is sent as four bytes with the length of its JSON
text, the most significant first, and the text.  The reader refuses a length of more than 10 MiB and
disconnects; the sender checks no length, and writes its low 32 bits only.
-/

namespace AlephCore.Network

open Bytes

/-- Peer ID. -/
abbrev PeerId := String

/-- Maximum message size (10 MB). -/
def maxMessageSize : Nat := 10 * 1024 * 1024

inductive NetworkEvent where
  | peerConnected (peer : PeerId)
  | peerDisconnected (peer : PeerId)
  | messageReceived (peer : PeerId) (message : Message)
  | syncRequest (peer : PeerId) (sinceBlock : Nat)

/-- `serde_json::to_vec` and `serde_json::from_slice` on messages. -/
structure Codec where
  toVec : Message → Except String (List UInt8)
  fromSlice : List UInt8 → Except String Message

/-- A text is read back as the message it was made of, and has no control characters: JSON escapes them in strings,
and the compact writer puts no white space between the parts. -/
structure Codec.Lawful (codec : Codec) : Prop where
  inverse : ∀ {message payload}, codec.toVec message = .ok payload → codec.fromSlice payload = .ok message
  printable : ∀ {message payload}, codec.toVec message = .ok payload → ∀ b ∈ payload, 0x20 ≤ b.toNat

/-! ## Sending -/

/-- What has been written on each open connection, and the messages counted for each peer. -/
structure Sender where
  connections : PeerId → Option (List UInt8)
  messagesSent : PeerId → Option Nat

/-- A connection that breaks while a frame is written. -/
structure Broken where
  /-- The bytes it still takes. -/
  taken : Nat
  error : String

/-- The length of the payload as a `u32` in big-endian order, and the payload. -/
def frame (payload : List UInt8) : List UInt8 := be32 payload.length ++ payload

/-- Send a message to a specific peer using length-prefixed framing. -/
def sendToPeer (codec : Codec) (broken : Option Broken) (peer : PeerId) (message : Message) (s : Sender) :
    Except String Unit × Sender :=
  match s.connections peer with
  | none => (.error s!"No connection to peer: {peer}", s)
  | some written =>
    match codec.toVec message with
    | .error e => (.error e, s)
    | .ok payload =>
      match broken with
      | some b =>
        (.error b.error, { s with
          connections := Function.update s.connections peer (some (written ++ (frame payload).take b.taken)) })
      | none =>
        (.ok (),
          { connections := Function.update s.connections peer (some (written ++ frame payload))
            messagesSent := Function.update s.messagesSent peer ((s.messagesSent peer).map (· + 1)) })

/-- The messages were sent to the peer one after another, each with success; in between, anything may happen that
leaves this connection alone. -/
inductive Sent (codec : Codec) (peer : PeerId) : Sender → List Message → Sender → Prop
  | nil (s : Sender) : Sent codec peer s [] s
  | cons {s s' s'' : Sender} {broken : Option Broken} {message : Message} {messages : List Message}
      (hsend : sendToPeer codec broken peer message s = (.ok (), s')) (h : Sent codec peer s' messages s'') :
      Sent codec peer s (message :: messages) s''
  | other {s s' s'' : Sender} {messages : List Message} (hkept : s'.connections peer = s.connections peer)
      (h : Sent codec peer s' messages s'') : Sent codec peer s messages s''

/-! ## Reading -/

/-- What the reader makes of the next bytes of the stream. -/
inductive Received where
  /-- The frame has not arrived completely. -/
  | short
  /-- The length is over the limit. -/
  | tooLarge
  | payload (msgBuf : List UInt8) (rest : List (List UInt8))

/-- Read a length and a payload. -/
def readFrame (chunks : List (List UInt8)) : Received :=
  match readExact 4 chunks with
  | none => .short
  | some (lenBuf, rest) =>
    if maxMessageSize < bigEndian lenBuf then .tooLarge
    else match readExact (bigEndian lenBuf) rest with
      | none => .short
      | some (msgBuf, rest') => .payload msgBuf rest'

theorem length_of_payload {chunks rest : List (List UInt8)} {msgBuf : List UInt8}
    (h : readFrame chunks = .payload msgBuf rest) : rest.flatten.length < chunks.flatten.length := by
  unfold readFrame at h
  cases h4 : readExact 4 chunks with
  | none =>
    rw [h4] at h
    cases h
  | some r =>
    obtain ⟨lenBuf, tail⟩ := r
    rw [h4] at h
    dsimp only at h
    split_ifs at h
    cases hlen : readExact (bigEndian lenBuf) tail with
    | none =>
      rw [hlen] at h
      cases h
    | some r' =>
      rw [hlen] at h
      obtain ⟨rfl, rfl⟩ := Received.payload.inj h
      obtain ⟨h1, h2⟩ := readExact_eq_some h4
      obtain ⟨-, h4'⟩ := readExact_eq_some hlen
      rw [← h2, ← h4', List.length_append, List.length_append]
      omega

/-- Read loop for a peer connection, over what has arrived of the stream: the events it sends.  The loop waits for
more bytes, unless the other side has closed the connection. -/
def readLoop (codec : Codec) (peer : PeerId) (closed : Bool) (chunks : List (List UInt8)) : List NetworkEvent :=
  match _h : readFrame chunks with
  | .short => if closed then [.peerDisconnected peer] else []
  | .tooLarge => [.peerDisconnected peer]
  | .payload msgBuf rest =>
    match codec.fromSlice msgBuf with
    | .ok message => .messageReceived peer message :: readLoop codec peer closed rest
    | .error _ => readLoop codec peer closed rest
termination_by chunks.flatten.length
decreasing_by all_goals exact length_of_payload ‹_›

/-! ## The reader sees the bytes, not the chunks -/

variable {codec : Codec} {peer : PeerId} {closed : Bool}

theorem readLoop_short {chunks : List (List UInt8)} (h : readFrame chunks = .short) :
    readLoop codec peer closed chunks = if closed then [.peerDisconnected peer] else [] := by
  rw [readLoop]
  split
  · rfl
  · rename_i h'
    rw [h] at h'
    cases h'
  · rename_i h'
    rw [h] at h'
    cases h'

theorem readLoop_tooLarge {chunks : List (List UInt8)} (h : readFrame chunks = .tooLarge) :
    readLoop codec peer closed chunks = [.peerDisconnected peer] := by
  rw [readLoop]
  split
  · rename_i h'
    rw [h] at h'
    cases h'
  · rfl
  · rename_i h'
    rw [h] at h'
    cases h'

/-- The events a payload gives rise to: none if it cannot be read as a message. -/
def received (codec : Codec) (peer : PeerId) (payload : List UInt8) : List NetworkEvent :=
  match codec.fromSlice payload with
  | .ok message => [.messageReceived peer message]
  | .error _ => []

theorem readLoop_payload {chunks rest : List (List UInt8)} {msgBuf : List UInt8}
    (h : readFrame chunks = .payload msgBuf rest) :
    readLoop codec peer closed chunks = received codec peer msgBuf ++ readLoop codec peer closed rest := by
  rw [readLoop]
  split
  · rename_i h'
    rw [h] at h'
    cases h'
  · rename_i h'
    rw [h] at h'
    cases h'
  · rename_i msgBuf' rest' h'
    obtain ⟨rfl, rfl⟩ := Received.payload.inj (h'.symm.trans h)
    unfold received
    cases codec.fromSlice msgBuf' <;> rfl

/-- The first length and payload of the bytes that have arrived. -/
theorem readFrame_of_flatten {chunks : List (List UInt8)} {lenBuf tail : List UInt8} (hlen : lenBuf.length = 4)
    (hflat : chunks.flatten = lenBuf ++ tail) :
    if maxMessageSize < bigEndian lenBuf then readFrame chunks = .tooLarge
    else if tail.length < bigEndian lenBuf then readFrame chunks = .short
    else ∃ rest, readFrame chunks = .payload (tail.take (bigEndian lenBuf)) rest ∧
      rest.flatten = tail.drop (bigEndian lenBuf) := by
  have henough : 4 ≤ chunks.flatten.length := by
    rw [hflat, List.length_append]
    omega
  obtain ⟨rest, hread, hrest⟩ := exists_readExact henough
  rw [hflat, ← hlen, List.take_left] at hread
  rw [hflat, ← hlen, List.drop_left] at hrest
  rw [hlen] at hread
  unfold readFrame
  rw [hread]
  dsimp only
  split_ifs with hlarge hshort
  · rfl
  · rw [readExact_eq_none.2 (by rw [hrest]; exact hshort)]
  · have hlong : bigEndian lenBuf ≤ rest.flatten.length := by
      rw [hrest]
      omega
    obtain ⟨rest', hread', hrest'⟩ := exists_readExact hlong
    rw [hrest] at hread' hrest'
    refine ⟨rest', ?_, hrest'⟩
    rw [hread']

theorem readFrame_few {chunks : List (List UInt8)} (h : chunks.flatten.length < 4) : readFrame chunks = .short := by
  unfold readFrame
  rw [readExact_eq_none.2 h]

/-- **How the stream is split makes no difference.** -/
theorem readLoop_congr {chunks chunks' : List (List UInt8)} (h : chunks.flatten = chunks'.flatten) :
    readLoop codec peer closed chunks = readLoop codec peer closed chunks' := by
  induction hn : chunks.flatten.length using Nat.strong_induction_on generalizing chunks chunks' with
  | _ n ih =>
    by_cases hfew : chunks.flatten.length < 4
    · rw [readLoop_short (readFrame_few hfew), readLoop_short (readFrame_few (h ▸ hfew))]
    · have hflat : chunks.flatten = chunks.flatten.take 4 ++ chunks.flatten.drop 4 :=
        (List.take_append_drop _ _).symm
      have hlen : (chunks.flatten.take 4).length = 4 := List.length_take_of_le (by omega)
      have hread := readFrame_of_flatten hlen hflat
      have hread' := readFrame_of_flatten hlen (h.symm.trans hflat)
      split_ifs at hread hread' with hlarge hshort
      · rw [readLoop_tooLarge hread, readLoop_tooLarge hread']
      · rw [readLoop_short hread, readLoop_short hread']
      · obtain ⟨rest, hpayload, hrest⟩ := hread
        obtain ⟨rest', hpayload', hrest'⟩ := hread'
        rw [readLoop_payload hpayload, readLoop_payload hpayload']
        have hlt := length_of_payload hpayload
        rw [ih rest.flatten.length (hn ▸ hlt) (hrest.trans hrest'.symm) rfl]

/-! ## One frame -/

/-- A frame within the limit is received, and the reader goes on behind it. -/
theorem readLoop_frame {chunks : List (List UInt8)} {payload tail : List UInt8}
    (hsize : payload.length ≤ maxMessageSize) (hflat : chunks.flatten = frame payload ++ tail) :
    readLoop codec peer closed chunks = received codec peer payload ++ readLoop codec peer closed [tail] := by
  have hlength : bigEndian (be32 payload.length) = payload.length := by
    rw [bigEndian_be32]
    unfold maxMessageSize at hsize
    omega
  have hread := readFrame_of_flatten (length_be32 payload.length) (hflat.trans (List.append_assoc _ _ _))
  rw [hlength, if_neg (by omega), if_neg (by rw [List.length_append]; omega), List.take_left, List.drop_left] at hread
  obtain ⟨rest, hpayload, hrest⟩ := hread
  have hbehind : rest.flatten = [tail].flatten := by rw [hrest, List.flatten_singleton]
  rw [readLoop_payload hpayload, readLoop_congr hbehind]

/-- Text where a length should be is over the limit. -/
theorem readLoop_text {chunks : List (List UInt8)} {text tail : List UInt8} (hlen : 4 ≤ text.length)
    (hprintable : ∀ b ∈ text, 0x20 ≤ b.toNat) (hflat : chunks.flatten = text ++ tail) :
    readLoop codec peer closed chunks = [.peerDisconnected peer] := by
  have hfour : (text.take 4).length = 4 := List.length_take_of_le hlen
  have hlarge : 0x20 * 2 ^ 24 ≤ bigEndian (text.take 4) :=
    le_bigEndian_four hfour fun b hb => hprintable b (List.mem_of_mem_take hb)
  have hfirst : chunks.flatten = text.take 4 ++ (text.drop 4 ++ tail) := by
    rw [hflat, ← List.append_assoc, List.take_append_drop]
  have hread := readFrame_of_flatten hfour hfirst
  rw [if_pos (by unfold maxMessageSize; omega)] at hread
  exact readLoop_tooLarge hread

/-- **A frame over the limit ends with a disconnection**: the reader refuses the length, or, where this has
overflowed, takes the rest of the text for a length. -/
theorem readLoop_overLimit {chunks : List (List UInt8)} {payload tail : List UInt8}
    (hsize : maxMessageSize < payload.length) (hprintable : ∀ b ∈ payload, 0x20 ≤ b.toNat)
    (hflat : chunks.flatten = frame payload ++ tail) :
    .peerDisconnected peer ∈ readLoop codec peer closed chunks := by
  have hread := readFrame_of_flatten (length_be32 payload.length) (hflat.trans (List.append_assoc _ _ _))
  rw [bigEndian_be32] at hread
  by_cases hlarge : maxMessageSize < payload.length % 2 ^ 32
  · rw [if_pos hlarge] at hread
    rw [readLoop_tooLarge hread]
    exact List.mem_singleton_self _
  · have hoverflow : payload.length % 2 ^ 32 + 2 ^ 32 ≤ payload.length := by
      unfold maxMessageSize at hsize hlarge
      omega
    rw [if_neg hlarge, if_neg (by rw [List.length_append]; omega)] at hread
    obtain ⟨rest, hpayload, hrest⟩ := hread
    rw [List.drop_append_of_le_length (by omega)] at hrest
    have htext : readLoop codec peer closed rest = [.peerDisconnected peer] := by
      refine readLoop_text ?_ (fun b hb => hprintable b (List.mem_of_mem_drop hb)) hrest
      rw [List.length_drop]
      omega
    rw [readLoop_payload hpayload, htext]
    exact List.mem_append_right _ (List.mem_singleton_self _)

/-! ## A conversation -/

theorem sendToPeer_ok {s : Sender} {message : Message} {written payload : List UInt8}
    (hopen : s.connections peer = some written) (hpayload : codec.toVec message = .ok payload) :
    sendToPeer codec none peer message s =
      (.ok (), { connections := Function.update s.connections peer (some (written ++ frame payload))
                 messagesSent := Function.update s.messagesSent peer ((s.messagesSent peer).map (· + 1)) }) := by
  rw [sendToPeer, hopen]
  dsimp only
  rw [hpayload]

/-- What was sent: the texts of the messages, framed one after another. -/
theorem Sent.written {s s' : Sender} {messages : List Message} (h : Sent codec peer s messages s')
    {before : List UInt8} (hopen : s.connections peer = some before) :
    ∃ payloads, List.Forall₂ (fun message payload => codec.toVec message = .ok payload) messages payloads ∧
      s'.connections peer = some (before ++ (payloads.map frame).flatten) := by
  induction h generalizing before with
  | nil s => exact ⟨[], .nil, by rw [hopen, List.map_nil, List.flatten_nil, List.append_nil]⟩
  | @cons s s' s'' broken message messages hsend h ih =>
    unfold sendToPeer at hsend
    rw [hopen] at hsend
    dsimp only at hsend
    cases hpayload : codec.toVec message with
    | error e =>
      rw [hpayload] at hsend
      exact absurd (congrArg Prod.fst hsend) (by simp)
    | ok payload =>
      rw [hpayload] at hsend
      cases broken with
      | some b => exact absurd (congrArg Prod.fst hsend) (by simp)
      | none =>
        have hs' := (congrArg Prod.snd hsend).symm
        dsimp only at hs'
        have hopen' : s'.connections peer = some (before ++ frame payload) := by
          rw [hs']
          exact Function.update_self ..
        obtain ⟨payloads, hall, hwritten⟩ := ih hopen'
        refine ⟨payload :: payloads, .cons hpayload hall, ?_⟩
        rw [hwritten, List.map_cons, List.flatten_cons, List.append_assoc]
  | other hkept h ih => exact ih (hkept.trans hopen)

/-- Two lists of which corresponding elements are related. -/
theorem exists_of_mem_left {α β : Type} {R : α → β → Prop} {as : List α} {bs : List β} (h : List.Forall₂ R as bs)
    {a : α} (ha : a ∈ as) : ∃ b ∈ bs, R a b := by
  induction h with
  | nil => exact absurd ha List.not_mem_nil
  | @cons a' b as bs hab _ ih =>
    rcases List.mem_cons.1 ha with rfl | ha
    · exact ⟨b, List.mem_cons_self, hab⟩
    · obtain ⟨b', hb', hab'⟩ := ih ha
      exact ⟨b', List.mem_cons_of_mem _ hb', hab'⟩

/-- Texts within the limit are received as the messages they were made of. -/
theorem readLoop_within (hlawful : codec.Lawful) {messages : List Message} {payloads : List (List UInt8)}
    (hall : List.Forall₂ (fun message payload => codec.toVec message = .ok payload) messages payloads)
    (hsize : ∀ payload ∈ payloads, payload.length ≤ maxMessageSize) {chunks : List (List UInt8)}
    (hflat : chunks.flatten = (payloads.map frame).flatten) :
    readLoop codec peer false chunks = messages.map (.messageReceived peer) := by
  induction hall generalizing chunks with
  | nil =>
    have hfew : chunks.flatten.length < 4 := by
      rw [hflat]
      decide
    rw [readLoop_short (readFrame_few hfew)]
    rfl
  | @cons message payload messages payloads hpayload _ ih =>
    have hbehind : [(payloads.map frame).flatten].flatten = (payloads.map frame).flatten := List.append_nil _
    have hrest := ih (fun p hp => hsize p (List.mem_cons_of_mem _ hp)) hbehind
    rw [readLoop_frame (hsize payload List.mem_cons_self) hflat, hrest, received, hlawful.inverse hpayload]
    rfl

/-- A text over the limit makes the reader disconnect, whatever comes before it. -/
theorem readLoop_disconnects (hlawful : codec.Lawful) {messages : List Message} {payloads : List (List UInt8)}
    (hall : List.Forall₂ (fun message payload => codec.toVec message = .ok payload) messages payloads)
    (hsize : ∃ payload ∈ payloads, maxMessageSize < payload.length) {chunks : List (List UInt8)}
    (hflat : chunks.flatten = (payloads.map frame).flatten) :
    .peerDisconnected peer ∈ readLoop codec peer false chunks := by
  induction hall generalizing chunks with
  | nil =>
    obtain ⟨p, hp, -⟩ := hsize
    exact absurd hp List.not_mem_nil
  | @cons message payload messages payloads hpayload _ ih =>
    by_cases hlarge : maxMessageSize < payload.length
    · exact readLoop_overLimit hlarge (hlawful.printable hpayload) hflat
    · obtain ⟨p, hp, hp'⟩ := hsize
      have hrest : ∃ p ∈ payloads, maxMessageSize < p.length := by
        rcases List.mem_cons.1 hp with rfl | hp
        · exact absurd hp' hlarge
        · exact ⟨p, hp, hp'⟩
      rw [readLoop_frame (Nat.le_of_not_lt hlarge) hflat]
      exact List.mem_append_right _ (ih hrest (List.append_nil _))

/-- A message whose content is the letter `a`, `n` times. -/
def noteOf (n : Nat) : Message :=
  { messageType := .post, chain := .eth, sender := "0xa", signature := "0xb", itemType := .inline, itemHash := "c",
    itemContent := some (String.ofList (List.replicate n 'a')), channel := none, time := 1 }

def ascii (s : String) : List UInt8 := s.toList.map fun c => UInt8.ofNat c.toNat

/-- What comes before its content in its JSON text. -/
def opening : List UInt8 :=
  ascii "\x7b\"type\":\"POST\",\"chain\":\"ETH\",\"sender\":\"0xa\",\"signature\":\"0xb\"," ++
    ascii "\"item_type\":\"inline\",\"item_hash\":\"c\",\"item_content\":\""

/-- What comes after it. -/
def closing : List UInt8 := ascii "\",\"channel\":null,\"time\":1.0\x7d"

/-- Its JSON text. -/
def textOf (n : Nat) : List UInt8 := opening ++ List.replicate n 0x61 ++ closing

theorem length_textOf (n : Nat) : (textOf n).length = opening.length + n + closing.length := by
  rw [textOf, List.length_append, List.length_append, List.length_replicate]

set_option maxRecDepth 4000 in
theorem printable_textOf (n : Nat) : ∀ b ∈ textOf n, 0x20 ≤ b.toNat := by
  have hopening : ∀ b ∈ opening, 0x20 ≤ b.toNat := by decide
  have hclosing : ∀ b ∈ closing, 0x20 ≤ b.toNat := by decide
  intro b hb
  rcases List.mem_append.1 hb with hb | hb
  · rcases List.mem_append.1 hb with hb | hb
    · exact hopening b hb
    · rw [List.eq_of_mem_replicate hb]
      decide
  · exact hclosing b hb

/-- A codec that knows this message and its text. -/
def noteCodec (n : Nat) : Codec where
  toVec message := if message = noteOf n then .ok (textOf n) else .error "not the note"
  fromSlice payload := if payload = textOf n then .ok (noteOf n) else .error "not its text"

theorem noteCodec_toVec (n : Nat) : (noteCodec n).toVec (noteOf n) = .ok (textOf n) := if_pos rfl

theorem noteCodec_lawful (n : Nat) : (noteCodec n).Lawful := by
  have htext : ∀ {message payload}, (noteCodec n).toVec message = .ok payload →
      message = noteOf n ∧ payload = textOf n := by
    intro message payload h
    unfold noteCodec at h
    dsimp only at h
    split_ifs at h with hm
    exact ⟨hm, (Except.ok.inj h).symm⟩
  refine ⟨fun h => ?_, fun h b hb => ?_⟩
  · obtain ⟨rfl, rfl⟩ := htext h
    exact if_pos rfl
  · obtain ⟨-, rfl⟩ := htext h
    exact printable_textOf n b hb

/-- A connection nothing has been sent on. -/
def fresh : Sender := { connections := fun _ => some [], messagesSent := fun _ => some 0 }

/-- The note has been sent. -/
def afterNote (n : Nat) : Sender :=
  { connections := Function.update fresh.connections "peer_a" (some ([] ++ frame (textOf n)))
    messagesSent := Function.update fresh.messagesSent "peer_a" ((fresh.messagesSent "peer_a").map (· + 1)) }

theorem sent_note (n : Nat) : Sent (noteCodec n) "peer_a" fresh [noteOf n] (afterNote n) :=
  .cons (sendToPeer_ok rfl (noteCodec_toVec n)) (.nil _)

end AlephCore.Network
