import VolumeStore.Proofs.Server.Refinement
import VolumeStore.Proofs.Wire.AnnouncedLengths

/-!
# Refused lines

A line that is too long and a line that is no command are answered by a refusal, and the session and
the store stay as they are. The two differ in where the connection goes on. A line that is too long
is passed over together with its payload, unless the cut that bounds it divides a character: then
the connection is lost. A line that is no command is left without the payload that it announces, so
the payload is read as requests.
-/

namespace VolumeStore

/-! ## Turns that refuse -/

namespace Frame

/-- Every connection on which the frame arrives answers it with the error and nothing else, and
stands right behind it. -/
def RefusedWith (settings : StoreSettings) (error : WireError) (f : Frame) : Prop :=
  ∀ (store : Store) (c : Connection) (rest : List UInt8) (ended : Bool),
    store.settings = settings → c.incoming = ⟨f.bytes ++ rest, ended⟩ →
    c.turn? store true =
      some ⟨store, { c with incoming := ⟨rest, ended⟩ }, some (.failed (.wire error))⟩

end Frame

namespace Connection

variable {store : Store} {c : Connection} {error : WireError} {rest : Incoming}

theorem turn?_of_malformed
    (h : c.incoming.readRequest store.settings = .ok (.malformed error, rest)) :
    c.turn? store true =
      some ⟨store, { c with incoming := rest }, some (.failed (.wire error))⟩ := by
  obtain ⟨peer, session, incoming, isOpen⟩ := c
  unfold turn?
  rw [h]
  cases hm : session.mounted with
  | none =>
    simp [Session.isMounted, hm, unmountedTurn, Session.serve, Session.refuse, withSession,
      Outcome.isClosing]
  | some mount =>
    simp [Session.isMounted, hm, mountedTurn, refreshRegistry, Session.serve, Session.refuse,
      withSession, Outcome.isClosing]

end Connection

/-! ## The announcement of a line that is cut off -/

namespace Command

/-- The verb of a line lies within its first `limit` bytes, and so does the field that tells the
length of a payload, together with the separator behind it. -/
structure FieldsWithin (limit : Nat) (line : String) : Prop where
  verb : Text.byteLength (Text.firstField ' ' line.toList).1 ≤ limit
  length : ∀ verb i, Verb.parse? (Text.firstField ' ' line.toList).1 = some verb →
    lengthField? verb = some i →
    ∃ front back, line.toList = front ++ ' ' :: back ∧ (front.splitOn ' ').length = i + 1 ∧
      Text.byteLength front < limit

theorem announcedPayload?_congr {a b : String}
    (hverb : (Text.firstField ' ' a.toList).1 = (Text.firstField ' ' b.toList).1)
    (hfield : ∀ verb i, Verb.parse? (Text.firstField ' ' b.toList).1 = some verb →
      lengthField? verb = some i → (a.toList.splitOn ' ')[i]? = (b.toList.splitOn ' ')[i]?) :
    announcedPayload? a = announcedPayload? b := by
  unfold announcedPayload?
  simp only [Text.head?_splitOn, hverb, Option.bind_eq_bind, Option.bind_some]
  cases hv : Verb.parse? (Text.firstField ' ' b.toList).1 with
  | none => rfl
  | some verb =>
    simp only [Option.bind_some]
    cases hi : lengthField? verb with
    | none => rfl
    | some i => simp only [Option.bind_some, hfield verb i hv hi]

theorem exists_eq_append_of_isPrefix {front back tail cs : List Char}
    (hcs : cs <+: front ++ ' ' :: back ++ tail)
    (hlen : Text.byteLength front < Text.byteLength cs) : ∃ more, cs = front ++ ' ' :: more := by
  have hfront : front ++ [' '] <+: front ++ ' ' :: back ++ tail := ⟨back ++ tail, by simp⟩
  have hspace : Text.byteLength (front ++ [' ']) = Text.byteLength front + 1 := by
    rw [Text.byteLength_append]
    rfl
  obtain ⟨more, rfl⟩ := Text.isPrefix_of_byteLength_le hfront hcs (by omega)
  exact ⟨more, by simp⟩

theorem FieldsWithin.announcedPayload?_eq {limit : Nat} {line p : String} {tail : List Char}
    (h : FieldsWithin limit line) (hlong : limit < Text.byteLength line.toList)
    (hp : p.toList <+: line.toList ++ tail) (hlen : limit < Text.byteLength p.toList) :
    announcedPayload? p = announcedPayload? line := by
  apply announcedPayload?_congr
  · cases hc : Text.cut? ' ' line.toList with
    | none =>
      -- A line without a separator is its own verb, and that is short.
      have hverb := h.verb
      rw [Text.firstField, hc] at hverb
      exact absurd hverb (Nat.not_le.2 hlong)
    | some fields =>
      obtain ⟨a, b⟩ := fields
      have hverb := h.verb
      obtain ⟨ha, hline⟩ := Text.cut?_eq_some_iff.1 hc
      rw [hline, Text.firstField_append_cons ha] at hverb
      obtain ⟨more, hmore⟩ := exists_eq_append_of_isPrefix (hline ▸ hp)
        (Nat.lt_of_le_of_lt hverb hlen)
      rw [hmore, hline, Text.firstField_append_cons ha, Text.firstField_append_cons ha]
  · intro verb i hv hi
    obtain ⟨front, back, hline, hcount, hfront⟩ := h.length verb i hv hi
    obtain ⟨more, hmore⟩ := exists_eq_append_of_isPrefix (hline ▸ hp) (Nat.lt_trans hfront hlen)
    rw [hmore, hline, List.splitOn_append_cons_self, List.splitOn_append_cons_self,
      List.getElem?_append_left (by omega), List.getElem?_append_left (by omega)]

end Command

/-! ## Lines that are too long -/

namespace Frame

variable {limit : UInt64} {f : Frame} {settings : StoreSettings}

/-- The line is longer than allowed, and the payload is what its first fields announce. -/
structure Overlong (limit : UInt64) (f : Frame) : Prop where
  crlf : f.crlf = true
  long : limit.toNat < Text.byteLength f.line.toList
  oneLine : '\n' ∉ f.line.toList
  fields : Command.FieldsWithin limit.toNat f.line
  complete : f.payload.length = ((Command.announcedPayload? f.line).getD 0).toNat

def lineLength (f : Frame) : Nat :=
  Text.byteLength (f.line ++ f.lineEnd).toList

/-- The frame is passed over: the reader finds its line too long and stands behind its payload, and
every connection answers so, with the number for what is no command, and goes on there. -/
structure PassedOver (settings : StoreSettings) (f : Frame) : Prop where
  read : ∀ (rest : List UInt8) (ended : Bool),
    Incoming.readLine ⟨f.bytes ++ rest, ended⟩ settings.maxCommandLength =
      .ok (.tooLong f.lineLength, ⟨rest, ended⟩)
  refused : f.RefusedWith settings (.commandTooLong f.lineLength)
  number : (StoreError.wire (.commandTooLong f.lineLength)).reply.code = ReplyCode.unknownCommand

structure BreaksOff (settings : StoreSettings) (f : Frame) : Prop where
  read : ∀ (rest : List UInt8) (ended : Bool),
    Incoming.readLine ⟨f.bytes ++ rest, ended⟩ settings.maxCommandLength = .error .notText
  lost : ∀ (store : Store) (c : Connection) (rest : List UInt8) (ended : Bool),
    store.settings = settings → c.incoming = ⟨f.bytes ++ rest, ended⟩ →
    c.turn? store true = some (c.lost store)

theorem lineBytes_eq_take {n : Nat} {bytes : List UInt8} (h : lineFeed ∉ bytes.take n) :
    lineBytes n bytes = bytes.take n := by
  induction n generalizing bytes with
  | zero => rfl
  | succ n ih =>
    cases bytes with
    | nil => rfl
    | cons b bs =>
      rw [List.take_succ_cons, List.mem_cons, not_or] at h
      rw [lineBytes, if_neg (Ne.symm h.1), ih h.2, List.take_succ_cons]

theorem Overlong.le_length_body (h : f.Overlong limit) : limit.toNat + 2 ≤ f.body.length := by
  have hlong := h.long
  unfold body
  rw [h.crlf, List.length_append, Text.length_encode]
  exact Nat.add_le_add_right hlong 1

theorem lineLength_eq (f : Frame) : f.lineLength = f.body.length + 1 := by
  rw [lineLength, ← Text.length_encode, encode_line_lineEnd, List.length_append]
  rfl

theorem takeLine_room (hn : '\n' ∉ f.line.toList) {n : Nat} (hroom : n ≤ f.body.length)
    (more : List UInt8) (ended : Bool) :
    Incoming.takeLine ⟨f.body ++ more, ended⟩ n =
      .ok (f.body.take n, ⟨f.body.drop n ++ more, ended⟩) := by
  have htake : (f.body ++ more).take n = f.body.take n := List.take_append_of_le_length hroom
  have hline : lineBytes n (f.body ++ more) = f.body.take n := by
    rw [lineBytes_eq_take, htake]
    rw [htake]
    exact fun hmem => lineFeed_notMem_body hn (List.mem_of_mem_take hmem)
  have hlen : (f.body.take n).length = n := by
    rw [List.length_take, Nat.min_eq_left hroom]
  unfold Incoming.takeLine
  simp only [hline, hlen, decide_true, Bool.or_true, Bool.true_or, if_true, Incoming.drop,
    List.drop_append_of_le_length hroom]

theorem takeLine_rest (hn : '\n' ∉ f.line.toList) (n : Nat) (more : List UInt8) (ended : Bool) :
    Incoming.takeLine ⟨f.body.drop n ++ lineFeed :: more, ended⟩
        ((f.body.drop n ++ lineFeed :: more).length + 1) =
      .ok (f.body.drop n ++ [lineFeed], ⟨more, ended⟩) := by
  have hline : lineBytes ((f.body.drop n ++ lineFeed :: more).length + 1)
      (f.body.drop n ++ lineFeed :: more) = f.body.drop n ++ [lineFeed] := by
    refine lineBytes_line (fun hmem => lineFeed_notMem_body hn (List.mem_of_mem_drop hmem)) ?_ more
    rw [List.length_append]
    omega
  have hdrop : (f.body.drop n ++ lineFeed :: more).drop (f.body.drop n ++ [lineFeed]).length =
      more := by
    rw [List.append_cons _ _ more, List.drop_left]
  unfold Incoming.takeLine
  simp only [hline, hdrop, Incoming.drop]
  simp [isClosed]

/-- A line with more bytes than there is room for is left out together with what its start
announces, if the room ends between two characters. -/
theorem readLine_cut (hn : '\n' ∉ f.line.toList) (hpos : 0 < Incoming.lineRoom limit)
    (hroom : Incoming.lineRoom limit ≤ f.body.length) (rest : List UInt8) (ended : Bool) :
    Incoming.readLine ⟨Text.encode (f.line ++ f.lineEnd) ++ rest, ended⟩ limit =
      match Text.decode? (f.body.take (Incoming.lineRoom limit)) with
      | none => .error .notText
      | some p =>
        (Incoming.skipAnnounced ⟨rest, ended⟩ p).map fun s => (.tooLong f.lineLength, s) := by
  have hbytes : Text.encode (f.line ++ f.lineEnd) ++ rest = f.body ++ lineFeed :: rest := by
    rw [encode_line_lineEnd, List.append_assoc]
    rfl
  have hlen : (f.body.take (Incoming.lineRoom limit)).length = Incoming.lineRoom limit := by
    rw [List.length_take, Nat.min_eq_left hroom]
  have hne : f.body.take (Incoming.lineRoom limit) ≠ [] := by
    rw [← List.length_pos_iff, hlen]
    exact hpos
  have hopen : isClosed (f.body.take (Incoming.lineRoom limit)) = false := by
    have : (f.body.take (Incoming.lineRoom limit)).getLast? ≠ some lineFeed := fun hlast =>
      lineFeed_notMem_body hn (List.mem_of_mem_take (List.mem_of_getLast? hlast))
    simpa [isClosed] using this
  have hcount : Incoming.lineRoom limit +
      (f.body.drop (Incoming.lineRoom limit) ++ [lineFeed]).length = f.lineLength := by
    rw [lineLength_eq, List.length_append, List.length_drop, List.length_singleton]
    omega
  unfold Incoming.readLine
  rw [hbytes, takeLine_room hn hroom]
  simp only [bind, Except.bind, hne, if_false]
  cases Text.decode? (f.body.take (Incoming.lineRoom limit)) with
  | none => rfl
  | some p =>
    -- The line goes on behind the cut, and what was looked at announces the payload.
    simp only [hopen, Bool.false_eq_true, if_false, hlen, if_true, takeLine_rest hn, hcount]
    cases Incoming.skipAnnounced ⟨rest, ended⟩ p <;> rfl

def CutsCleanly (limit : UInt64) (f : Frame) : Prop :=
  (Text.dropBytes? (limit.toNat + 2) (f.line ++ f.lineEnd).toList).isSome

instance (limit : UInt64) (f : Frame) : Decidable (f.CutsCleanly limit) :=
  inferInstanceAs (Decidable (_ = true))

theorem Overlong.take_encode (h : f.Overlong limit) :
    (Text.encode (f.line ++ f.lineEnd)).take (limit.toNat + 2) =
      f.body.take (limit.toNat + 2) := by
  rw [encode_line_lineEnd, List.take_append_of_le_length h.le_length_body]

theorem Overlong.isSome_decode?_iff (h : f.Overlong limit) :
    (Text.decode? (f.body.take (limit.toNat + 2))).isSome ↔ f.CutsCleanly limit := by
  have hroom := h.le_length_body
  rw [← h.take_encode]
  refine Text.isSome_decode?_take_iff ?_
  rw [encode_line_lineEnd, List.length_append]
  omega

theorem Overlong.announcedPayload?_eq {p : String} (h : f.Overlong limit)
    (hp : Text.decode? (f.body.take (limit.toNat + 2)) = some p) :
    Command.announcedPayload? p = Command.announcedPayload? f.line := by
  have hroom := h.le_length_body
  have hlen : Text.byteLength p.toList = limit.toNat + 2 := by
    rw [← Text.length_encode, ← Text.eq_encode_of_decode? hp, List.length_take,
      Nat.min_eq_left hroom]
  have hpre := Text.isPrefix_of_decode? (h.take_encode ▸ hp)
  rw [String.toList_append] at hpre
  exact h.fields.announcedPayload?_eq h.long hpre (by omega)

theorem Overlong.skipAnnounced {p : String} (h : f.Overlong limit)
    (hp : Command.announcedPayload? p = Command.announcedPayload? f.line) (rest : List UInt8)
    (ended : Bool) :
    Incoming.skipAnnounced ⟨f.payload ++ rest, ended⟩ p = .ok ⟨rest, ended⟩ := by
  have hlen := h.complete
  unfold Incoming.skipAnnounced
  rw [hp]
  cases ha : Command.announcedPayload? f.line with
  | none =>
    rw [ha] at hlen
    rw [List.length_eq_zero_iff.1 hlen]
    rfl
  | some n =>
    rw [ha, Option.getD_some] at hlen
    simp [Incoming.takeBytes, Incoming.drop, ← hlen, Except.map]

/-- From a stream that starts with a line that is too long the line is taken with its payload, or,
when the cut divides a character, nothing. -/
theorem Overlong.readLine (h : f.Overlong limit) (hroom : limit.toNat + 2 < UInt64.size)
    (rest : List UInt8) (ended : Bool) :
    Incoming.readLine ⟨f.bytes ++ rest, ended⟩ limit =
      if (Text.decode? (f.body.take (limit.toNat + 2))).isSome then
        .ok (.tooLong f.lineLength, ⟨rest, ended⟩)
      else .error .notText := by
  have hlength := h.le_length_body
  have hpos : 0 < Incoming.lineRoom limit := by
    rw [lineRoom_eq hroom]
    omega
  rw [bytes, List.append_assoc, readLine_cut h.oneLine hpos (by rwa [lineRoom_eq hroom]),
    lineRoom_eq hroom]
  cases hp : Text.decode? (f.body.take (limit.toNat + 2)) with
  | none => rfl
  | some p =>
    show (Incoming.skipAnnounced ⟨f.payload ++ rest, ended⟩ p).map _ = _
    rw [h.skipAnnounced (h.announcedPayload?_eq hp)]
    rfl

theorem Overlong.passedOver (h : f.Overlong settings.maxCommandLength)
    (hroom : settings.maxCommandLength.toNat + 2 < UInt64.size)
    (hclean : f.CutsCleanly settings.maxCommandLength) : f.PassedOver settings := by
  have hread : ∀ (rest : List UInt8) (ended : Bool),
      Incoming.readLine ⟨f.bytes ++ rest, ended⟩ settings.maxCommandLength =
        .ok (.tooLong f.lineLength, ⟨rest, ended⟩) := by
    intro rest ended
    rw [h.readLine hroom, if_pos (h.isSome_decode?_iff.2 hclean)]
  refine ⟨hread, ?_, rfl⟩
  rintro store c rest ended rfl hin
  refine Connection.turn?_of_malformed ?_
  unfold Incoming.readRequest
  rw [hin, hread]
  rfl

theorem Overlong.breaksOff (h : f.Overlong settings.maxCommandLength)
    (hroom : settings.maxCommandLength.toNat + 2 < UInt64.size)
    (hclean : ¬ f.CutsCleanly settings.maxCommandLength) : f.BreaksOff settings := by
  have hread : ∀ (rest : List UInt8) (ended : Bool),
      Incoming.readLine ⟨f.bytes ++ rest, ended⟩ settings.maxCommandLength = .error .notText := by
    intro rest ended
    rw [h.readLine hroom, if_neg (mt h.isSome_decode?_iff.1 hclean)]
  refine ⟨hread, ?_⟩
  rintro store c rest ended rfl hin
  unfold Connection.turn? Incoming.readRequest
  rw [hin, hread]
  rfl

theorem BreaksOff.not_passedOver (h : f.BreaksOff settings) : ¬ f.PassedOver settings := by
  intro hover
  have := (h.read [] true).symm.trans (hover.read [] true)
  exact absurd this (by simp)

/-- A frame whose line is too long is passed over exactly when the cut at two bytes behind the limit
divides no character of the line; otherwise it ends the connection. -/
theorem Overlong.passedOver_iff (h : f.Overlong settings.maxCommandLength)
    (hroom : settings.maxCommandLength.toNat + 2 < UInt64.size) :
    (f.PassedOver settings ↔ f.CutsCleanly settings.maxCommandLength) ∧
      (f.BreaksOff settings ↔ ¬ f.CutsCleanly settings.maxCommandLength) :=
  ⟨⟨fun hover => Decidable.not_not.1 fun hclean =>
        (h.breaksOff hroom hclean).not_passedOver hover,
      h.passedOver hroom⟩,
    fun hbreaks hclean => hbreaks.not_passedOver (h.passedOver hroom hclean), h.breaksOff hroom⟩

def cutLetter : Frame :=
  ⟨"STAT /xxxxxxxxxxxxxxxxxxxxxxxxxxxxxxxxxxxxxxxxxxxxxxxxxxxxxxxxxxxé", true, []⟩

def longAppend : Frame :=
  ⟨"APPE 6 /xxxxxxxxxxxxxxxxxxxxxxxxxxxxxxxxxxxxxxxxxxxxxxxxxxxxxxxxxxé", true,
    Text.encode "NOOP\r\n"⟩

theorem cutLetter_overlong : cutLetter.Overlong 64 where
  crlf := rfl
  long := by decide
  oneLine := by decide
  fields := ⟨by decide, fun verb i hv hi => by
    have hverb : Verb.parse? (Text.firstField ' ' cutLetter.line.toList).1 = some .stat := by decide
    rw [hverb, Option.some.injEq] at hv
    subst hv
    exact absurd hi (by simp [Command.lengthField?])⟩
  complete := by decide

theorem longAppend_overlong : longAppend.Overlong 64 where
  crlf := rfl
  long := by decide
  oneLine := by decide
  fields := ⟨by decide, fun verb i hv hi => by
    have hverb : Verb.parse? (Text.firstField ' ' longAppend.line.toList).1 = some .append := by
      decide
    rw [hverb, Option.some.injEq] at hv
    subst hv
    obtain rfl : 1 = i := Option.some.inj hi
    exact ⟨"APPE 6".toList, longAppend.line.toList.drop 7, by decide, by decide, by decide⟩⟩
  complete := by decide

def shortLines : StoreSettings :=
  { maxCommandLength := 64 }

theorem passedOver_iff_longAppend :
    longAppend.Overlong shortLines.maxCommandLength ∧ longAppend.PassedOver shortLines :=
  ⟨longAppend_overlong, (Overlong.passedOver_iff longAppend_overlong (by decide)).1.2 (by decide)⟩

/-- A line that is too long may end the connection instead of being passed over. -/
theorem not_forall_passedOver :
    ¬ ∀ (settings : StoreSettings) (f : Frame), settings.fault? = none →
      f.Overlong settings.maxCommandLength → f.PassedOver settings := by
  intro hall
  have hbreaks : cutLetter.BreaksOff shortLines :=
    Overlong.breaksOff cutLetter_overlong (by decide) (by decide)
  exact hbreaks.not_passedOver (hall shortLines cutLetter (by decide) cutLetter_overlong)

/-! ## Lines that are no command -/

/-- The line is short enough and no command, and the payload is what its first fields announce. -/
structure Malformed (limit : UInt64) (error : WireError) (f : Frame) : Prop where
  short : Text.byteLength f.line.toList ≤ limit.toNat
  oneLine : '\n' ∉ f.line.toList
  parse : Command.parse f.line = .error error
  announced : ∃ n, Command.announcedPayload? f.line = some n ∧ f.payload.length = n.toNat

/-- Every connection on which the frame arrives answers its line with the error and goes on in front
of the payload. -/
def LeavesPayload (settings : StoreSettings) (error : WireError) (f : Frame) : Prop :=
  ∀ (store : Store) (c : Connection) (rest : List UInt8) (ended : Bool),
    store.settings = settings → c.incoming = ⟨f.bytes ++ rest, ended⟩ →
    c.turn? store true =
      some ⟨store, { c with incoming := ⟨f.payload ++ rest, ended⟩ },
        some (.failed (.wire error))⟩

theorem Malformed.leavesPayload {error : WireError}
    (h : f.Malformed settings.maxCommandLength error)
    (hroom : settings.maxCommandLength.toNat + 2 < UInt64.size) :
    f.LeavesPayload settings error := by
  rintro store c rest ended rfl hin
  refine Connection.turn?_of_malformed ?_
  unfold Incoming.readRequest
  rw [hin, bytes, List.append_assoc, readLine_of_le h.short h.oneLine hroom]
  simp only [bind, Except.bind, f.parse_line_lineEnd, h.parse]
  rfl

theorem LeavesPayload.refusedWith_iff {error : WireError} (h : f.LeavesPayload settings error) :
    f.RefusedWith settings error ↔ f.payload = [] := by
  constructor
  · intro hrefused
    let store : Store := ⟨settings, default, ⟨[], 0⟩⟩
    let c : Connection := { Connection.ofPeer default with incoming := ⟨f.bytes ++ [], true⟩ }
    have hsame := (h store c [] true rfl rfl).symm.trans (hrefused store c [] true rfl rfl)
    simp only [Option.some.injEq, Turn.mk.injEq, Connection.mk.injEq, Incoming.mk.injEq,
      true_and, and_true, List.append_nil] at hsame
    exact hsame
  · intro hnil store c rest ended hs hin
    have := h store c rest ended hs hin
    rwa [hnil, List.nil_append] at this

/-- A line that is no command is answered by one refusal, and the connection reads on at the first
byte of the payload that the line announces. So it goes on behind the payload only when there is
none. -/
theorem Malformed.leavesPayload_and_refusedWith_iff {error : WireError}
    (h : f.Malformed settings.maxCommandLength error)
    (hroom : settings.maxCommandLength.toNat + 2 < UInt64.size) :
    f.LeavesPayload settings error ∧
      (f.RefusedWith settings error ↔ Command.announcedPayload? f.line = some 0) := by
  obtain ⟨n, hn, hlen⟩ := h.announced
  refine ⟨h.leavesPayload hroom, ?_⟩
  rw [(h.leavesPayload hroom).refusedWith_iff, hn, Option.some.injEq,
    ← List.length_eq_zero_iff, hlen]
  exact UInt64.toNat_inj (b := 0)

theorem LeavesPayload.run_frames {error : WireError} {store : Store} {c : Connection}
    {payload frames : List Frame} {last : Option Frame}
    (h : f.LeavesPayload store.settings error) (hready : c.Ready store)
    (hroom : store.settings.maxCommandLength.toNat + 2 < UInt64.size)
    (hpayload : f.payload = payload.flatMap Frame.bytes)
    (hwhole : ∀ g ∈ payload ++ frames, g.Whole store.settings.maxCommandLength)
    (hlast : ∀ g ∈ last, g.CutShort store.settings.maxCommandLength)
    (hin : c.incoming = ⟨f.bytes ++ Connection.stream frames last, true⟩) {turns : Nat}
    (hturns : (payload ++ frames).length < turns) :
    let answers := c.session.runFrames store.settings store.tree (payload ++ frames)
    Connection.Realizes (Connection.run (turns + 1) store c)
      (.failed (.wire error) :: answers.1) answers.2.1 answers.2.2 := by
  -- The payload stands in the stream as if its lines had been sent as requests.
  have hstream : f.payload ++ Connection.stream frames last =
      Connection.stream (payload ++ frames) last := by
    simp [Connection.stream, hpayload]
  have hturn := h store c _ true rfl hin
  rw [hstream] at hturn
  have hrest := Connection.Ready.run_frames hroom hlast (payload ++ frames) turns store
    { c with incoming := ⟨Connection.stream (payload ++ frames) last, true⟩ } rfl
    ⟨hready.isOpen, hready.room⟩ hturns hwhole rfl
  rw [Connection.run_of_turn? turns hready.isOpen hturn]
  exact ⟨congrArg (_ :: ·) hrest.written, hrest.session_eq, hrest.tree_eq, hrest.closed⟩

def namelessAppend : Frame :=
  ⟨"APPE 6 ", true, Text.encode "NOOP\r\n"⟩

theorem namelessAppend_malformed {limit : UInt64} (h : 7 ≤ limit.toNat) :
    namelessAppend.Malformed limit (.syntaxError (.missing "path")) :=
  ⟨h, by decide, rfl, 6, by decide, by decide⟩

theorem leavesPayload_and_refusedWith_iff_namelessAppend :
    namelessAppend.Malformed shortLines.maxCommandLength (.syntaxError (.missing "path")) ∧
      namelessAppend.LeavesPayload shortLines (.syntaxError (.missing "path")) ∧
      (namelessAppend.RefusedWith shortLines (.syntaxError (.missing "path")) ↔
        Command.announcedPayload? namelessAppend.line = some 0) :=
  ⟨namelessAppend_malformed (by decide), Malformed.leavesPayload_and_refusedWith_iff
    (namelessAppend_malformed (by decide)) (by decide)⟩

/-- The payload of a line that is no command may be taken for requests. -/
theorem not_forall_refusedWith :
    ¬ ∀ (settings : StoreSettings) (error : WireError) (f : Frame), settings.fault? = none →
      f.Malformed settings.maxCommandLength error → f.RefusedWith settings error := by
  intro hall
  have hf : namelessAppend.Malformed shortLines.maxCommandLength (.syntaxError (.missing "path")) :=
    namelessAppend_malformed (by decide)
  have hleaves : namelessAppend.LeavesPayload shortLines (.syntaxError (.missing "path")) :=
    hf.leavesPayload (by decide)
  have hnil := hleaves.refusedWith_iff.1 (hall shortLines _ _ (by decide) hf)
  exact absurd hnil (by decide)

end Frame

end VolumeStore
