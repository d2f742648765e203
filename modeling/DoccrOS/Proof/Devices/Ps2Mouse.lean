import DoccrOS.Construction.Devices.Ps2

namespace DoccrOS.Devices

/-- A complete packet: the first byte has the bit that is always set, and no overflow. -/
structure MousePacket where
  first : BitVec 8
  x : BitVec 8
  y : BitVec 8
  sync : first &&& 0x08 ≠ 0
  noOverflow : first &&& 0xC0 = 0

def MousePacket.bytes (packet : MousePacket) : List (BitVec 8) := [packet.first, packet.x, packet.y]

/-- The nine-bit delta of a byte with its sign bit. -/
def nineBits (sign : Bool) (low : BitVec 8) : Int := low.toNat - 256 * sign.toNat

/-- The motions that the protocol gives to a packet. -/
def MousePacket.motions (packet : MousePacket) : List InputEvent :=
  reportMotion inputRelX (nineBits (packet.first.getLsbD 4) packet.x) ++
    reportMotion inputRelY (-nineBits (packet.first.getLsbD 5) packet.y)

/-- The motions that the driver reads from a packet. -/
def MousePacket.byteMotions (packet : MousePacket) : List InputEvent :=
  reportMotion inputRelX packet.x.toInt ++ reportMotion inputRelY (-packet.y.toInt)

/-- The bits of the first byte and the codes of the buttons. -/
def mouseButtons : List (Nat × Nat) := [(0, inputBtnLeft), (1, inputBtnRight), (2, inputBtnMiddle)]

/-- One press or release for each button that is not as it was. -/
def MousePacket.changes (held : Nat → Bool) (packet : MousePacket) : List InputEvent :=
  mouseButtons.flatMap fun (bit, code) =>
    if packet.first.getLsbD bit = held bit then [] else [inputReportKey code (packet.first.getLsbD bit) 0]

/-- The events of a stream, packet by packet, when each packet has the given motions. -/
def streamEvents (motions : MousePacket → List InputEvent) (held : Nat → Bool) : List MousePacket → List InputEvent
  | [] => []
  | packet :: rest => (motions packet ++ packet.changes held) ++ streamEvents motions packet.first.getLsbD rest

/-- The values of the events of one key. -/
def valuesOf (code : Nat) (events : List InputEvent) : List Int :=
  (events.filter fun ev => ev.type = .key ∧ ev.code = code).map InputEvent.value

/-- Presses and releases alternate, and the first event is a press. -/
def Alternating (values : List Int) : Prop := List.IsChain (fun before after => after = 1 - before) (0 :: values)

/-- The driver reports what the protocol says for a stream of packets, and the events of each button alternate. -/
def StreamDecoded (stored : Nat → BitVec 8) (stream : List MousePacket) : Prop :=
  let events := ((ps2MouseInit stored).feed (stream.flatMap MousePacket.bytes)).2
  events = streamEvents MousePacket.motions (fun _ => false) stream ∧
    ∀ button ∈ mouseButtons, Alternating (valuesOf button.2 events)

/-- The sign bits of the first byte are the top bits of the two deltas. -/
def MousePacket.SignsAgree (packet : MousePacket) : Prop :=
  packet.first.getLsbD 4 = packet.x.msb ∧ packet.first.getLsbD 5 = packet.y.msb

/-- The driver waits for the first byte of a packet and remembers which buttons are held. -/
structure Ps2Mouse.Holds (mouse : Ps2Mouse) (held : Nat → Bool) : Prop where
  index : mouse.packetIndex = 0
  buttons : ∀ bit < 3, mouse.buttons.getLsbD bit = held bit

section
variable {mouse : Ps2Mouse} {held : Nat → Bool} {motions : MousePacket → List InputEvent} {stream : List MousePacket}
  {ev : InputEvent}

/-- A mask of one bit tests that bit. -/
theorem mask_eq_zero {bits : BitVec 8} {bit : Nat} (inside : bit < 8) :
    bits &&& BitVec.twoPow 8 bit = 0 ↔ bits.getLsbD bit = false := by
  rw [BitVec.and_twoPow]
  cases bits.getLsbD bit
  · simp
  · have positive : BitVec.twoPow 8 bit ≠ 0 := by
      intro zero
      have lost := congrArg (fun bits => bits.getLsbD bit) zero
      simp [inside] at lost
    simpa using positive

/-- One button is reported exactly when its bit changed. -/
theorem reportButton_bit {old buttons : BitVec 8} {bit : Nat} (inside : bit < 8) (code : Nat) :
    reportButton buttons (old ^^^ buttons) (BitVec.twoPow 8 bit) code =
      if buttons.getLsbD bit = old.getLsbD bit then [] else [inputReportKey code (buttons.getLsbD bit) 0] := by
  have pressed : (buttons &&& BitVec.twoPow 8 bit != 0) = buttons.getLsbD bit := by
    rw [Bool.eq_iff_iff, bne_iff_ne, ne_eq, mask_eq_zero inside, Bool.not_eq_false]
  simp only [reportButton, pressed, ne_eq, mask_eq_zero inside, BitVec.getLsbD_xor]
  cases old.getLsbD bit <;> cases buttons.getLsbD bit <;> rfl

/-- The driver keeps the bits of the three buttons. -/
theorem buttonBits (first : BitVec 8) {bit : Nat} (inside : bit < 3) : (first &&& 0x07).getLsbD bit = first.getLsbD bit := by
  interval_cases bit <;> simp

/-- The buttons that are reported are those that are not as they were. -/
theorem reportButtons_changes (packet : MousePacket) (holds : mouse.Holds held) :
    reportButtons mouse.buttons (packet.first &&& 0x07) = packet.changes held := by
  have button (bit : Nat) (inside : bit < 3) (code : Nat) :
      reportButton (packet.first &&& 0x07) (mouse.buttons ^^^ (packet.first &&& 0x07)) (BitVec.twoPow 8 bit) code =
        if packet.first.getLsbD bit = held bit then [] else [inputReportKey code (packet.first.getLsbD bit) 0] := by
    rw [reportButton_bit (by omega), buttonBits _ inside, holds.buttons bit inside]
  change reportButton _ _ (BitVec.twoPow 8 0) _ ++ reportButton _ _ (BitVec.twoPow 8 1) _ ++
    reportButton _ _ (BitVec.twoPow 8 2) _ = _
  rw [button 0 (by decide), button 1 (by decide), button 2 (by decide)]
  simp only [MousePacket.changes, mouseButtons, List.flatMap_cons, List.flatMap_nil, List.append_nil, List.append_assoc]

/-- A byte that does not complete a packet is stored. -/
theorem irq_stores {data : BitVec 8} (sync : mouse.packetIndex = 0 → data &&& 0x08 ≠ 0) (incomplete : mouse.packetIndex < 2) :
    mouseIrqHandler mouse mouseByteReady data =
      (⟨Function.update mouse.packet mouse.packetIndex data, mouse.packetIndex + 1, mouse.buttons⟩, []) := by
  have ready : ¬(mouseByteReady &&& 0x01 = 0 ∨ mouseByteReady &&& 0x20 = 0) := by decide
  have wanted : ¬(mouse.packetIndex = 0 ∧ data &&& 0x08 = 0) := fun dropped => sync dropped.1 dropped.2
  have more : mouse.packetIndex + 1 ≠ 3 := by omega
  rw [mouseIrqHandler, if_neg ready, if_neg wanted]
  exact if_pos more

/-- The third byte completes a packet. -/
theorem irq_completes {data : BitVec 8} (last : mouse.packetIndex = 2) :
    mouseIrqHandler mouse mouseByteReady data = Ps2Mouse.decode ⟨Function.update mouse.packet 2 data, 0, mouse.buttons⟩ := by
  have ready : ¬(mouseByteReady &&& 0x01 = 0 ∨ mouseByteReady &&& 0x20 = 0) := by decide
  rw [mouseIrqHandler, if_neg ready, last]
  rfl

/-- A packet without overflow is decoded. -/
theorem decode_packet (clear : mouse.packet 0 &&& 0xC0 = 0) : mouse.decode =
    ({ mouse with buttons := mouse.packet 0 &&& 0x07 },
      reportMotion inputRelX (mouse.packet 1).toInt ++ reportMotion inputRelY (-(mouse.packet 2).toInt) ++
        reportButtons mouse.buttons (mouse.packet 0 &&& 0x07)) := by
  rw [Ps2Mouse.decode]
  exact if_neg (not_not_intro clear)

/-- A complete packet reports the motions that the driver reads and the buttons that changed. -/
theorem feed_packet (packet : MousePacket) (holds : mouse.Holds held) (rest : List (BitVec 8)) :
    ∃ next : Ps2Mouse, next.Holds packet.first.getLsbD ∧
      (mouse.feed (packet.bytes ++ rest)).2 = (packet.byteMotions ++ packet.changes held) ++ (next.feed rest).2 := by
  obtain ⟨bytes, index, buttons⟩ := mouse
  obtain rfl := holds.index
  let stored := Function.update (Function.update (Function.update bytes 0 packet.first) 1 packet.x) 2 packet.y
  have decoded : Ps2Mouse.decode ⟨stored, 0, buttons⟩ =
      (⟨stored, 0, packet.first &&& 0x07⟩, packet.byteMotions ++ packet.changes held) := by
    rw [decode_packet packet.noOverflow, ← reportButtons_changes packet holds]
    rfl
  refine ⟨⟨stored, 0, packet.first &&& 0x07⟩, ⟨rfl, fun bit inside => buttonBits _ inside⟩, ?_⟩
  simp only [MousePacket.bytes, List.cons_append, List.nil_append, Ps2Mouse.feed]
  rw [irq_stores (fun _ => packet.sync) Nat.zero_lt_two,
    irq_stores (fun zero => absurd zero Nat.one_ne_zero) Nat.one_lt_two, irq_completes rfl, decoded]
  rfl

/-- A stream of complete packets reports the motions that the driver reads and the buttons that changed. -/
theorem feed_stream (holds : mouse.Holds held) (stream : List MousePacket) :
    (mouse.feed (stream.flatMap MousePacket.bytes)).2 = streamEvents MousePacket.byteMotions held stream := by
  induction stream generalizing mouse held with
  | nil => rfl
  | cons packet rest inductionHypothesis =>
      obtain ⟨next, nextHolds, events⟩ := feed_packet packet holds (rest.flatMap MousePacket.bytes)
      rw [List.flatMap_cons, events, inductionHypothesis nextHolds, streamEvents]

/-- A signed byte is its nine-bit delta with its top bit as the sign. -/
theorem toInt_nineBits (low : BitVec 8) : low.toInt = nineBits low.msb low := by
  rw [BitVec.toInt_eq_msb_cond, nineBits]
  cases low.msb
  · simp
  · simp

/-- The sign bit is the top bit when the delta is in the range of a byte. -/
theorem nineBits_sign {sign : Bool} {low : BitVec 8} (range : -128 ≤ nineBits sign low ∧ nineBits sign low ≤ 127) :
    sign = low.msb := by
  have less := low.isLt
  rw [BitVec.msb_eq_decide]
  cases sign
  · simp only [nineBits, Bool.toNat_false] at range
    simp
    omega
  · simp only [nineBits, Bool.toNat_true] at range
    simp
    omega

/-- The motions of a packet are what the driver reads when the signs agree. -/
theorem MousePacket.SignsAgree.byteMotions {packet : MousePacket} (agree : packet.SignsAgree) :
    packet.byteMotions = packet.motions := by
  rw [MousePacket.byteMotions, MousePacket.motions, agree.1, agree.2, toInt_nineBits, toInt_nineBits]

/-- The events of a stream depend on the motions of its packets only. -/
theorem streamEvents_congr {other : MousePacket → List InputEvent} (same : ∀ packet ∈ stream, motions packet = other packet) :
    streamEvents motions held stream = streamEvents other held stream := by
  induction stream generalizing held with
  | nil => rfl
  | cons first rest inductionHypothesis =>
      have later := @inductionHypothesis first.first.getLsbD fun packet member => same packet (List.mem_cons_of_mem _ member)
      rw [streamEvents, streamEvents, same first List.mem_cons_self, later]

/-- A motion of a packet is an event of the stream. -/
theorem mem_streamEvents {packet : MousePacket} (member : packet ∈ stream) (reported : ev ∈ motions packet) :
    ev ∈ streamEvents motions held stream := by
  induction stream generalizing held with
  | nil => cases member
  | cons first rest inductionHypothesis =>
      rw [streamEvents, List.mem_append, List.mem_append]
      rcases List.mem_cons.mp member with rfl | later
      · exact Or.inl (Or.inl reported)
      · exact Or.inr (inductionHypothesis later)

theorem mem_reportMotion {axis : Nat} {value : Int} :
    ev ∈ reportMotion axis value ↔ value ≠ 0 ∧ ev = inputReportRel axis value := by
  rw [reportMotion]
  split <;> simp_all

/-- A change of a packet is an event of one of the buttons. -/
theorem mem_changes {packet : MousePacket} (member : ev ∈ packet.changes held) :
    ∃ button ∈ mouseButtons, ev = inputReportKey button.2 (packet.first.getLsbD button.1) 0 := by
  obtain ⟨button, among, reported⟩ := List.mem_flatMap.mp member
  refine ⟨button, among, ?_⟩
  dsimp only at reported
  split at reported
  · cases reported
  · exact List.mem_singleton.mp reported

/-- The events that are not of a button are the motions of a packet. -/
theorem streamEvents_motion (rel : ev.type = .rel) (member : ev ∈ streamEvents motions held stream) :
    ∃ packet ∈ stream, ev ∈ motions packet := by
  induction stream generalizing held with
  | nil => cases member
  | cons first rest inductionHypothesis =>
      rw [streamEvents, List.mem_append, List.mem_append] at member
      rcases member with (motion | change) | later
      · exact ⟨first, List.mem_cons_self, motion⟩
      · obtain ⟨button, -, rfl⟩ := mem_changes change
        cases rel
      · obtain ⟨packet, inRest, motion⟩ := inductionHypothesis later
        exact ⟨packet, List.mem_cons_of_mem _ inRest, motion⟩

/-- The motions that the driver reads are signed bytes, upside down for the second axis. -/
theorem mem_byteMotions {packet : MousePacket} {axis : Nat} {value : Int}
    (member : inputReportRel axis value ∈ packet.byteMotions) :
    (axis = inputRelX ∧ value = packet.x.toInt) ∨ (axis = inputRelY ∧ value = -packet.y.toInt) := by
  rw [MousePacket.byteMotions, List.mem_append, mem_reportMotion, mem_reportMotion] at member
  rcases member with ⟨-, same⟩ | ⟨-, same⟩
  · cases same
    exact Or.inl ⟨rfl, rfl⟩
  · cases same
    exact Or.inr ⟨rfl, rfl⟩

/-- A delta that is zero or among the signed bytes has the top bit as its sign. -/
theorem nineBits_toInt {sign : Bool} {low : BitVec 8}
    (inRange : nineBits sign low ≠ 0 → ∃ byte : BitVec 8, nineBits sign low = byte.toInt) : sign = low.msb := by
  apply nineBits_sign
  by_cases zero : nineBits sign low = 0
  · omega
  · obtain ⟨byte, same⟩ := inRange zero
    have least := byte.le_toInt
    have most := byte.toInt_lt
    omega

/-- A stream that reports the motions of the protocol has packets whose signs agree. -/
theorem signsAgree_of_motions
    (same : streamEvents MousePacket.byteMotions held stream = streamEvents MousePacket.motions held stream)
    {packet : MousePacket} (member : packet ∈ stream) : packet.SignsAgree := by
  -- Whatever the protocol reports, the driver read from the bytes of some packet of the stream.
  have fromBytes (axis : Nat) (value : Int) (reported : inputReportRel axis value ∈ packet.motions) :
      ∃ packet : MousePacket, inputReportRel axis value ∈ packet.byteMotions := by
    have inStream := @mem_streamEvents held _ _ _ _ member reported
    rw [← same] at inStream
    obtain ⟨other, -, read⟩ := streamEvents_motion rfl inStream
    exact ⟨other, read⟩
  constructor
  · apply nineBits_toInt
    intro moves
    obtain ⟨other, read⟩ := fromBytes inputRelX _ (List.mem_append_left _ (mem_reportMotion.mpr ⟨moves, rfl⟩))
    rcases mem_byteMotions read with ⟨-, value⟩ | ⟨axis, -⟩
    · exact ⟨other.x, value⟩
    · cases axis
  · apply nineBits_toInt
    intro moves
    obtain ⟨other, read⟩ := fromBytes inputRelY _
      (List.mem_append_right _ (mem_reportMotion.mpr ⟨neg_ne_zero.mpr moves, rfl⟩))
    rcases mem_byteMotions read with ⟨axis, -⟩ | ⟨-, value⟩
    · cases axis
    · exact ⟨other.y, neg_injective value⟩

/-- The value of an event of a key in a given position. -/
def positionValue (held : Bool) : Int := if held then 1 else 0

theorem valuesOf_append (code : Nat) (early late : List InputEvent) :
    valuesOf code (early ++ late) = valuesOf code early ++ valuesOf code late := by
  rw [valuesOf, List.filter_append, List.map_append]
  rfl

/-- A motion is no event of a key. -/
theorem valuesOf_motions (code : Nat) (packet : MousePacket) : valuesOf code packet.byteMotions = [] := by
  rw [valuesOf, List.map_eq_nil_iff, List.filter_eq_nil_iff]
  intro ev member
  rw [MousePacket.byteMotions, List.mem_append, mem_reportMotion, mem_reportMotion] at member
  rcases member with ⟨-, rfl⟩ | ⟨-, rfl⟩ <;> simp [inputReportRel]

/-- The changes of a packet have one event of a button exactly when its bit changed. -/
theorem valuesOf_changes {button : Nat × Nat} (among : button ∈ mouseButtons) (packet : MousePacket) :
    valuesOf button.2 (packet.changes held) =
      if packet.first.getLsbD button.1 = held button.1 then [] else [positionValue (packet.first.getLsbD button.1)] := by
  have event (bit code : Nat) : valuesOf button.2
      (if packet.first.getLsbD bit = held bit then [] else [inputReportKey code (packet.first.getLsbD bit) 0]) =
        if code = button.2 ∧ packet.first.getLsbD bit ≠ held bit then [positionValue (packet.first.getLsbD bit)] else [] := by
    by_cases same : packet.first.getLsbD bit = held bit
    · rw [if_pos same, if_neg fun changed => changed.2 same]
      rfl
    · rw [if_neg same]
      by_cases named : code = button.2
      · simp [valuesOf, inputReportKey, positionValue, named, same]
      · simp [valuesOf, inputReportKey, named]
  simp only [MousePacket.changes, mouseButtons, List.flatMap_cons, List.flatMap_nil, List.append_nil, valuesOf_append, event]
  simp only [mouseButtons, List.mem_cons, List.not_mem_nil, or_false] at among
  rcases among with rfl | rfl | rfl <;> simp [inputBtnLeft, inputBtnRight, inputBtnMiddle, ite_not]

/-- The events of a button alternate from the position in which it is. -/
theorem buttons_alternate {button : Nat × Nat} (among : button ∈ mouseButtons) :
    List.IsChain (fun before after => after = 1 - before)
      (positionValue (held button.1) :: valuesOf button.2 (streamEvents MousePacket.byteMotions held stream)) := by
  induction stream generalizing held with
  | nil => exact List.IsChain.singleton _
  | cons packet rest inductionHypothesis =>
      have later := @inductionHypothesis packet.first.getLsbD
      rw [streamEvents, valuesOf_append, valuesOf_append, valuesOf_motions, valuesOf_changes among, List.nil_append]
      by_cases same : packet.first.getLsbD button.1 = held button.1
      · rw [if_pos same, ← same]
        exact later
      · rw [if_neg same]
        refine List.IsChain.cons_cons ?_ later
        revert same
        cases packet.first.getLsbD button.1 <;> cases held button.1 <;> decide

/-- The driver reports what the protocol says for a stream exactly when the signs agree in every packet. -/
theorem mouse_stream_decoded (stored : Nat → BitVec 8) (stream : List MousePacket) :
    StreamDecoded stored stream ↔ ∀ packet ∈ stream, packet.SignsAgree := by
  have initial : (ps2MouseInit stored).Holds fun _ => false := ⟨rfl, fun _ _ => BitVec.getLsbD_zero⟩
  have events := feed_stream initial stream
  constructor
  · rintro ⟨same, -⟩ packet member
    rw [events] at same
    exact signsAgree_of_motions same member
  · intro agree
    have same : streamEvents MousePacket.byteMotions (fun _ => false) stream =
        streamEvents MousePacket.motions (fun _ => false) stream :=
      streamEvents_congr fun packet member => (agree packet member).byteMotions
    refine ⟨events.trans same, fun button among => ?_⟩
    rw [events]
    exact @buttons_alternate (fun _ => false) stream button among

/-- A motion of 128 to the right is reported as a motion of 128 to the left. -/
theorem mouse_stream_misread : ¬StreamDecoded (fun _ => 0) [⟨0x08, 0x80, 0x00, by decide, by decide⟩] := by
  intro decoded
  have first : ((ps2MouseInit fun _ => 0).feed [0x08, 0x80, 0x00]).2 = [inputReportRel inputRelX (-128)] := by decide +kernel
  have wanted : streamEvents MousePacket.motions (fun _ => false) [⟨0x08, 0x80, 0x00, by decide, by decide⟩] =
      [inputReportRel inputRelX 128] := by decide +kernel
  have same := (first.symm.trans decoded.1).trans wanted
  revert same
  decide

theorem mem_reportButton {buttons changed bit : BitVec 8} {code : Nat} (member : ev ∈ reportButton buttons changed bit code) :
    ev.type = .key ∧ ev.code = code := by
  rw [reportButton] at member
  split at member
  · cases List.mem_singleton.mp member
    exact ⟨rfl, rfl⟩
  · cases member

/-- The controller gives everything that the interrupt of the mouse reports to the queue of the mouse. -/
theorem mouseIrqHandler_dispatch {status data : BitVec 8} (member : ev ∈ (mouseIrqHandler mouse status data).2)
    (queues : InputQueues) : inputDispatch queues ev = { queues with mouse := mousePushEvent queues.mouse ev } := by
  have kinds : ev.type = .rel ∨ (ev.type = .key ∧ inputBtnLeft ≤ ev.code ∧ ev.code ≤ inputBtnMiddle) := by
    simp only [mouseIrqHandler, Ps2Mouse.decode, reportButtons] at member
    split_ifs at member
    any_goals cases member
    simp only [List.mem_append, mem_reportMotion] at member
    rcases member with (⟨-, rfl⟩ | ⟨-, rfl⟩) | (left | right) | middle
    · exact Or.inl rfl
    · exact Or.inl rfl
    · obtain ⟨type, code⟩ := mem_reportButton left
      exact Or.inr ⟨type, by rw [code]; decide⟩
    · obtain ⟨type, code⟩ := mem_reportButton right
      exact Or.inr ⟨type, by rw [code]; decide⟩
    · obtain ⟨type, code⟩ := mem_reportButton middle
      exact Or.inr ⟨type, by rw [code]; decide⟩
  rcases kinds with type | ⟨type, range⟩
  · rw [inputDispatch, type]
  · rw [inputDispatch, type]
    exact if_pos range

end

end DoccrOS.Devices
