import Toxera.GoTox.Stream

/-!
# The calls that send

`RoutingRequest`, `SendData`, `SendOOB` and `SendOnionRequest` of
`go-tox-tcpclient/tcpclient.go` with the builders of `packet.go`, from the string that
spells a key to the frame on the wire.
-/

namespace GoTox

open CryptoCore Packet

variable {b destPK plain : Bytes} {request : Bytes → Prop}

def fromHexChar (c : UInt8) : Option UInt8 :=
  if 48 ≤ c ∧ c ≤ 57 then some (c - 48)
  else if 97 ≤ c ∧ c ≤ 102 then some (c - 87)
  else if 65 ≤ c ∧ c ≤ 70 then some (c - 55)
  else none

def hexDecode : Bytes → Option Bytes
  | [] => some []
  | [_] => none
  | p :: q :: rest =>
    (fromHexChar p).bind fun a => (fromHexChar q).bind fun b =>
      (hexDecode rest).map fun decoded => (a <<< 4 ||| b) :: decoded

theorem hexDecode_length {s : Bytes} (h : hexDecode s = some b) : s.length = 2 * b.length := by
  induction s using hexDecode.induct generalizing b with
  | case1 =>
    cases h
    rfl
  | case2 => cases h
  | case3 p q rest ih =>
    rw [hexDecode] at h
    obtain ⟨x, -, h⟩ := Option.bind_eq_some_iff.mp h
    obtain ⟨y, -, h⟩ := Option.bind_eq_some_iff.mp h
    obtain ⟨decoded, hd, rfl⟩ := Option.map_eq_some_iff.mp h
    rw [List.length_cons, List.length_cons, List.length_cons, ih hd]
    omega

def keySlice (b spare : Bytes) : Option Bytes :=
  if publicKeySize ≤ b.length + spare.length then some ((b ++ spare).take publicKeySize) else none

theorem keySlice_whole (h : b.length = publicKeySize) (spare : Bytes) :
    keySlice b spare = some b := by
  rw [keySlice, if_pos (by omega), List.take_append_of_le_length (Nat.le_of_eq h.symm),
    List.take_of_length_le (Nat.le_of_eq h)]

def maxOOBDataLength : Nat := 1024

def buildRoutingRequest (destPK : Bytes) : Bytes :=
  copyAt (0 :: zeros publicKeySize) 1 (destPK.take publicKeySize)

def buildOOBSend (destPK data : Bytes) : Except String Bytes :=
  if data.length > maxOOBDataLength then .error "OOB data too large"
  else
    let pkt := copyAt (6 :: zeros (publicKeySize + data.length)) 1 (destPK.take publicKeySize)
    .ok (copyAt pkt (1 + publicKeySize) data)

def buildOnionRequest (data : Bytes) : Bytes := copyAt (8 :: zeros data.length) 1 data

def routingRequest (c : TCPClient) (pubkey spare : Bytes) : Option (TCPClient × Option String) :=
  match hexDecode pubkey with
  | none => some (c, some errInvalidKey)
  | some b => (keySlice b spare).map fun key => (sendPlaintext c (buildRoutingRequest key), none)

def sendOOB (c : TCPClient) (pubkey spare data : Bytes) : Option (TCPClient × Option String) :=
  match hexDecode pubkey with
  | none => some (c, some errInvalidKey)
  | some b =>
    (keySlice b spare).map fun key =>
      match buildOOBSend key data with
      | .error err => (c, some err)
      | .ok pkt => (sendPlaintext c pkt, none)

def sendOnionRequest (c : TCPClient) (data : Bytes) : TCPClient × Option String :=
  (sendPlaintext c (buildOnionRequest data), none)

theorem buildRoutingRequest_eq (whole : destPK.length = publicKeySize) :
    buildRoutingRequest destPK = 0 :: destPK := by
  have copied := copyAt_zeros [0] destPK publicKeySize (Nat.le_of_eq whole)
  rw [whole, Nat.sub_self] at copied
  rw [buildRoutingRequest, List.take_of_length_le (Nat.le_of_eq whole)]
  exact copied.trans (List.append_nil _)

theorem buildOOBSend_eq (whole : destPK.length = publicKeySize) (data : Bytes) :
    buildOOBSend destPK data = if data.length > maxOOBDataLength then .error "OOB data too large"
      else .ok (6 :: destPK ++ data) := by
  have key := copyAt_zeros [6] destPK (publicKeySize + data.length) (by omega)
  rw [whole, Nat.add_sub_cancel_left] at key
  have body := copyAt_zeros ([6] ++ destPK) data data.length le_rfl
  rw [Nat.sub_self, List.length_append, whole] at body
  rw [buildOOBSend, List.take_of_length_le (Nat.le_of_eq whole)]
  refine if_congr Iff.rfl rfl (congrArg Except.ok ?_)
  exact (congrArg (fun pkt => copyAt pkt (1 + publicKeySize) data) key).trans
    (body.trans (List.append_nil _))

theorem buildOnionRequest_eq (data : Bytes) : buildOnionRequest data = 8 :: data := by
  have copied := copyAt_zeros [8] data data.length le_rfl
  rw [Nat.sub_self] at copied
  exact copied.trans (List.append_nil _)

variable {B : Box}

def written (B : Box) (c : TCPClient) (plains : List Bytes) : TCPClient × List Bytes :=
  writeLoop B c (plains.map fun plain => (plain, true))

theorem sealedFrames_append (shrkey : CryptoKey) (start : CBNonce) (plains more : List Bytes) :
    sealedFrames B shrkey start (plains ++ more) =
      sealedFrames B shrkey start plains ++
        sealedFrames B shrkey (incr^[plains.length] start) more := by
  simp only [sealedFrames, List.mapIdx_append, ← Function.iterate_add_apply]

theorem sealedFrames_length (shrkey : CryptoKey) (start : CBNonce) (plains : List Bytes) :
    (sealedFrames B shrkey start plains).length = plains.length := List.length_mapIdx ..

/-- Whatever is sent later, the loop writes the frames of the packets sent before, then one
frame that seals this plaintext under the next nonce, then the later ones. -/
def PutsOnWire (B : Box) (c c' : TCPClient) (plain : Bytes) : Prop :=
  ∀ more, (written B c' (c'.writeCh ++ more)).2 =
    let before := written B c c.writeCh
    before.2 ++ frame (B.sealBox before.1.shrkey before.1.sentNonce plain) ::
      (written B { before.1 with sentNonce := incr before.1.sentNonce } more).2

/-- The call returns, and when it reports no error a plaintext as described is written. -/
def Reports (B : Box) (c : TCPClient) (result : Option (TCPClient × Option String))
    (request : Bytes → Prop) : Prop :=
  ∃ c' err, result = some (c', err) ∧ (err = none → ∃ plain, request plain ∧ PutsOnWire B c c' plain)

theorem sent_on_wire {c : TCPClient} (running : c.conn = true) (opened : c.done = false)
    (fits : plain.length ≤ maxPacketSize) : PutsOnWire B c (sendPlaintext c plain) plain := by
  intro more
  have queue : sendPlaintext c plain = { c with writeCh := c.writeCh ++ [plain] } := by
    rw [sendPlaintext, opened]
    rfl
  have kept : accepted (c.writeCh ++ [plain] ++ more) =
      accepted c.writeCh ++ plain :: accepted more := by
    simp [accepted, fits]
  rw [queue]
  simp only [written]
  rw [writeLoop_eq _ (by exact running), writeLoop_eq _ running, writeLoop_eq _ (by exact running),
    kept, sealedFrames_append, sealedFrames_cons]

theorem too_large_on_wire {c : TCPClient} (running : c.conn = true) (opened : c.done = false)
    (large : maxPacketSize < plain.length) (other : Bytes) :
    ¬ PutsOnWire B c (sendPlaintext c plain) other := by
  intro puts
  have queue : sendPlaintext c plain = { c with writeCh := c.writeCh ++ [plain] } := by
    rw [sendPlaintext, opened]
    rfl
  have dropped : accepted (c.writeCh ++ [plain] ++ []) = accepted c.writeCh := by
    simp [accepted, large]
  have frames := puts []
  rw [queue] at frames
  simp only [written] at frames
  rw [writeLoop_eq _ (by exact running), writeLoop_eq _ running, writeLoop_eq _ (by exact running),
    dropped] at frames
  have count := congrArg List.length frames
  simp [sealedFrames_length] at count

def RequestsRoute (pubkey plain : Bytes) : Prop :=
  ∃ key : CryptoKey, hexDecode pubkey = some key.val ∧ plain = 0 :: key.val

def SendsData (c : TCPClient) (pubkey data plain : Bytes) : Prop :=
  ∃ (key : CryptoKey) (i : Fin numClientConnections), hexDecode pubkey = some key.val ∧
    (c.conns i).status ≠ .free ∧ (c.conns i).pubkey = key ∧
    plain = (UInt8.ofNat i + numReservedPorts) :: data

def SendsOOB (pubkey data plain : Bytes) : Prop :=
  ∃ key : CryptoKey, hexDecode pubkey = some key.val ∧ plain = 6 :: key.val ++ data

theorem reports_error (c c' : TCPClient) (err : String) (request : Bytes → Prop) :
    Reports B c (some (c', some err)) request :=
  ⟨c', some err, rfl, fun none_ => by cases none_⟩

theorem reports_sent_iff {c : TCPClient} (running : c.conn = true) (opened : c.done = false)
    (asked : request plain) :
    Reports B c (some (sendPlaintext c plain, none)) request ↔ plain.length ≤ maxPacketSize := by
  constructor
  · rintro ⟨c', err, same, puts⟩
    cases same
    obtain ⟨other, -, wire⟩ := puts rfl
    by_contra large
    exact too_large_on_wire running opened (not_le.mp large) other wire
  · intro fits
    exact ⟨_, none, rfl, fun _ => ⟨plain, asked, sent_on_wire running opened fits⟩⟩

theorem not_reports {c c' : TCPClient} (never : ∀ plain, ¬ request plain) :
    ¬ Reports B c (some (c', none)) request := by
  rintro ⟨c'', err, same, puts⟩
  cases same
  obtain ⟨plain, asked, -⟩ := puts rfl
  exact never plain asked

theorem not_reports_panic (c : TCPClient) (request : Bytes → Prop) :
    ¬ Reports B c none request := by
  rintro ⟨c', err, same, -⟩
  cases same

theorem key_of_decoded {pubkey : Bytes} (decoded : hexDecode pubkey = some b) :
    (∃ key : CryptoKey, hexDecode pubkey = some key.val) ↔ pubkey.length = 64 := by
  have len := hexDecode_length decoded
  constructor
  · rintro ⟨key, hk⟩
    rw [hexDecode_length hk, key.property]
    rfl
  · intro whole
    have limit : CryptoCore.publicKeySize = 32 := rfl
    exact ⟨⟨b, by omega⟩, decoded⟩

section Calls
variable {c : TCPClient} (running : c.conn = true) (opened : c.done = false)
include running opened

theorem routingRequest_reports_iff (pubkey spare : Bytes) :
    Reports B c (routingRequest c pubkey spare) (RequestsRoute pubkey) ↔
      hexDecode pubkey = none ∨ pubkey.length = 64 := by
  unfold routingRequest
  cases decoded : hexDecode pubkey with
  | none => exact iff_of_true (reports_error _ _ _ _) (Or.inl rfl)
  | some b =>
    have len := hexDecode_length decoded
    have limit : publicKeySize = 32 := rfl
    simp only [reduceCtorEq, false_or]
    by_cases whole : pubkey.length = 64
    · have size : b.length = publicKeySize := by omega
      refine iff_of_true ?_ whole
      rw [keySlice_whole size, Option.map_some, buildRoutingRequest_eq size]
      refine (reports_sent_iff running opened ⟨⟨b, size⟩, decoded, rfl⟩).mpr ?_
      rw [List.length_cons, size]
      decide
    · refine iff_of_false ?_ whole
      have never : ∀ plain, ¬ RequestsRoute pubkey plain := fun plain ⟨key, hk, _⟩ =>
        whole ((key_of_decoded decoded).mp ⟨key, hk⟩)
      cases keySlice b spare with
      | none => exact not_reports_panic _ _
      | some key => exact not_reports never

theorem sendData_reports_iff (pubkey data : Bytes) :
    Reports B c (some (sendData c (hexDecode pubkey) data)) (SendsData c pubkey data) ↔
      (hexDecode pubkey).bind (findConnID c) = none ∨ data.length < maxPacketSize := by
  unfold sendData
  cases decoded : hexDecode pubkey with
  | none => exact iff_of_true (reports_error _ _ _ _) (Or.inl rfl)
  | some b =>
    rw [Option.bind_some]
    cases found : findConnID c b with
    | none => grind [reports_error]
    | some i =>
      have bound : (c.conns i).status ≠ .free ∧ (c.conns i).pubkey.val = b := by
        simpa using List.find?_some found
      have small : ¬ (UInt8.ofNat i).toNat ≥ numClientConnections := by
        have := i.isLt
        have limit : numClientConnections = 240 := rfl
        rw [UInt8.toNat_ofNat']
        omega
      have asked : SendsData c pubkey data ((UInt8.ofNat i + numReservedPorts) :: data) :=
        ⟨(c.conns i).pubkey, i, decoded.trans (congrArg some bound.2.symm), bound.1, rfl, rfl⟩
      simp only [found, buildDataPacket, if_neg small, reduceCtorEq, false_or]
      rw [reports_sent_iff running opened asked, List.length_cons, Nat.succ_le_iff]

theorem sendOOB_reports_iff (pubkey spare data : Bytes) :
    Reports B c (sendOOB c pubkey spare data) (SendsOOB pubkey data) ↔
      hexDecode pubkey = none ∨ pubkey.length = 64 ∨
        maxOOBDataLength < data.length ∧ 64 ≤ pubkey.length + 2 * spare.length := by
  unfold sendOOB
  cases decoded : hexDecode pubkey with
  | none => exact iff_of_true (reports_error _ _ _ _) (Or.inl rfl)
  | some b =>
    have len := hexDecode_length decoded
    have limit : publicKeySize = 32 := rfl
    simp only [reduceCtorEq, false_or]
    by_cases whole : pubkey.length = 64
    · have size : b.length = publicKeySize := by omega
      refine iff_of_true ?_ (Or.inl whole)
      rw [keySlice_whole size, Option.map_some, buildOOBSend_eq size]
      split_ifs with large
      · exact reports_error _ _ _ _
      · have asked : SendsOOB pubkey data (6 :: b ++ data) := ⟨⟨b, size⟩, decoded, rfl⟩
        refine (reports_sent_iff running opened asked).mpr ?_
        have limits : maxOOBDataLength = 1024 ∧ maxPacketSize = 2048 := ⟨rfl, rfl⟩
        rw [List.cons_append, List.length_cons, List.length_append]
        omega
    · rw [or_iff_right whole]
      have never : ∀ plain, ¬ SendsOOB pubkey data plain := fun plain ⟨key, hk, _⟩ =>
        whole ((key_of_decoded decoded).mp ⟨key, hk⟩)
      unfold keySlice
      split_ifs with reaches
      · rw [Option.map_some, buildOOBSend]
        split_ifs with large
        · exact iff_of_true (reports_error _ _ _ _) ⟨large, by omega⟩
        · exact iff_of_false (not_reports never) fun h => large h.1
      · exact iff_of_false (not_reports_panic _ _) fun h => reaches (by omega)

theorem sendOnionRequest_reports_iff (data : Bytes) :
    Reports B c (some (sendOnionRequest c data)) (fun plain => plain = 8 :: data) ↔
      data.length < maxPacketSize := by
  rw [sendOnionRequest, buildOnionRequest_eq, reports_sent_iff running opened (by rfl),
    List.length_cons, Nat.succ_le_iff]

end Calls

/-- With a running write loop and a socket that takes every frame, the four calls return and
report what is written exactly for strings that do not decode or have 64 characters, and for
data that fits into a packet. -/
theorem calls_report_iff {c : TCPClient} (running : c.conn = true) (opened : c.done = false)
    (pubkey spare data : Bytes) :
    (Reports B c (routingRequest c pubkey spare) (RequestsRoute pubkey) ↔
      hexDecode pubkey = none ∨ pubkey.length = 64) ∧
    (Reports B c (some (sendData c (hexDecode pubkey) data)) (SendsData c pubkey data) ↔
      (hexDecode pubkey).bind (findConnID c) = none ∨ data.length < maxPacketSize) ∧
    (Reports B c (sendOOB c pubkey spare data) (SendsOOB pubkey data) ↔
      hexDecode pubkey = none ∨ pubkey.length = 64 ∨
        maxOOBDataLength < data.length ∧ 64 ≤ pubkey.length + 2 * spare.length) ∧
    (Reports B c (some (sendOnionRequest c data)) (fun plain => plain = 8 :: data) ↔
      data.length < maxPacketSize) :=
  ⟨routingRequest_reports_iff running opened pubkey spare,
    sendData_reports_iff running opened pubkey data,
    sendOOB_reports_iff running opened pubkey spare data,
    sendOnionRequest_reports_iff running opened data⟩

def zeroDigits (n : Nat) : Bytes := List.replicate n 48

theorem calls_report_short_data :
    Reports plainBox (quietClient []) (routingRequest (quietClient []) (zeroDigits 64) [])
      (RequestsRoute (zeroDigits 64)) ∧
    Reports plainBox (quietClient []) (some (sendOnionRequest (quietClient []) [7]))
      (fun plain => plain = [8, 7]) := by
  have all := calls_report_iff (B := plainBox) (c := quietClient []) rfl rfl (zeroDigits 64) [] [7]
  exact ⟨all.1.mpr (Or.inr List.length_replicate), all.2.2.2.mpr (by decide)⟩

/-- A key that is too short panics, one that is too long is cut and requested, and data of a
whole packet is accepted and never written. -/
theorem calls_report_wrongly :
    routingRequest (quietClient []) (zeroDigits 2) [] = none ∧
    (∃ c, routingRequest (quietClient []) (zeroDigits 66) [] = some (c, none) ∧
      c.writeCh = [0 :: zeros 32]) ∧
    ¬ Reports plainBox (quietClient []) (routingRequest (quietClient []) (zeroDigits 66) [])
      (RequestsRoute (zeroDigits 66)) ∧
    (∃ c, sendOnionRequest (quietClient []) (zeros 2048) = (c, none)) ∧
    ¬ Reports plainBox (quietClient []) (some (sendOnionRequest (quietClient []) (zeros 2048)))
      (fun plain => plain = 8 :: zeros 2048) := by
  refine ⟨by decide +kernel, ?_, ?_, ⟨_, rfl⟩, ?_⟩
  · have sent : (routingRequest (quietClient []) (zeroDigits 66) []).map
        (fun r => (r.1.writeCh, r.2)) = some ([0 :: zeros 32], none) := by decide +kernel
    obtain ⟨⟨c, err⟩, call, same⟩ := Option.map_eq_some_iff.mp sent
    obtain ⟨queue, rfl⟩ := Prod.mk.inj same
    exact ⟨c, call, queue⟩
  · rw [routingRequest_reports_iff rfl rfl]
    decide +kernel
  · rw [sendOnionRequest_reports_iff rfl rfl, zeros, List.length_replicate]
    decide

end GoTox
