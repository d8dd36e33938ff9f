import VolumeStore.Proofs.Wire.ReplyLines
import VolumeStore.Proofs.Wire.RequestLines

/-!
# Responses in a stream

When some bytes start with a response to a command: a line that is a reply, and behind it the lines
or the bytes that the reply announces. This is said of the bytes alone, and a client reads a
response exactly when there is one, up to where it ends. Whatever else the bytes are, the client
gives up.
-/

namespace VolumeStore

/-! ## Lines -/

theorem lineBytes_of_notMem {bytes : List UInt8} (h : lineFeed ∉ bytes) {limit : Nat}
    (hlimit : bytes.length < limit) : lineBytes limit bytes = bytes := by
  induction bytes generalizing limit with
  | nil => cases limit <;> rfl
  | cons b bs ih =>
    cases limit with
    | zero => cases hlimit
    | succ limit =>
      rw [List.mem_cons, not_or] at h
      rw [lineBytes, if_neg (Ne.symm h.1), ih h.2 (Nat.lt_of_succ_lt_succ hlimit)]

theorem Text.exists_of_encode_lineFeed {text : String} {front : List UInt8}
    (h : Text.encode text = front ++ [lineFeed]) :
    ∃ line, text = line ++ "\n" ∧ Text.encode line = front := by
  rw [Text.encode_eq_flatMap] at h
  rcases List.eq_nil_or_concat text.toList with hnil | ⟨cs, c, hcs⟩
  · rw [hnil] at h
    cases (List.append_ne_nil_of_right_ne_nil front (List.cons_ne_nil lineFeed [])) h.symm
  · rw [List.concat_eq_append] at hcs
    rw [hcs, List.flatMap_append, List.flatMap_singleton] at h
    -- A line feed is no part of a longer character.
    have hlast : lineFeed ∈ String.utf8EncodeChar c := by
      have hgetLast := congrArg List.getLast? h
      rw [List.getLast?_append_of_ne_nil _ (String.utf8EncodeChar_ne_nil),
        List.getLast?_concat] at hgetLast
      exact List.mem_of_getLast? hgetLast
    have hc : c = '\n' := by
      have hnat := Text.toNat_of_mem_utf8EncodeChar hlast (by decide)
      exact Char.ext (UInt32.toNat_inj.1 hnat.symm)
    refine ⟨String.ofList cs, ?_, ?_⟩
    · apply String.toList_injective
      rw [hcs, String.toList_append, String.toList_ofList, hc]
      rfl
    · rw [Text.encode_ofList]
      subst hc
      exact List.append_inj_left' h rfl

namespace Incoming

/-- A line starts the stream, and it is a text: `text` without the end of the line, with `rest`
behind it. -/
inductive LineAhead : (s : Incoming) → (text : String) → (rest : Incoming) → Prop
  | closed {line : String} (h : '\n' ∉ line.toList) (rest : List UInt8) (ended : Bool) :
    LineAhead ⟨Text.encode line ++ lineFeed :: rest, ended⟩
      (String.ofList (Text.trimLineEnd line.toList)) ⟨rest, ended⟩
  | last {line : String} (h : '\n' ∉ line.toList) (hne : line ≠ "") :
    LineAhead ⟨Text.encode line, true⟩ (String.ofList (Text.trimLineEnd line.toList)) ⟨[], true⟩

inductive LinesAhead : (s : Incoming) → (lines : List String) → (rest : Incoming) → Prop
  | nil (s : Incoming) : LinesAhead s [] s
  | cons {s s' rest : Incoming} {line : String} {lines : List String} (h : s.LineAhead line s')
    (hlines : LinesAhead s' lines rest) : LinesAhead s (line :: lines) rest

def ReplyAhead (s : Incoming) (reply : Reply) (rest : Incoming) : Prop :=
  ∃ line, s.LineAhead line rest ∧ Reply.parse line = .ok reply

variable {s rest : Incoming}

theorem takeLine_of_notMem {bytes : List UInt8} (h : lineFeed ∉ bytes) (ended : Bool) :
    takeLine ⟨bytes, ended⟩ (bytes.length + 1) =
      if ended then .ok (bytes, ⟨[], true⟩) else .error .waiting := by
  -- A line is closed by a line feed, and there is none among the bytes.
  have hclosed : isClosed bytes = false := by
    cases hlast : bytes.getLast? with
    | none =>
      unfold isClosed
      rw [hlast]
      rfl
    | some b =>
      unfold isClosed
      rw [hlast]
      refine beq_eq_false_iff_ne.2 fun hb => h ?_
      cases hb
      exact List.mem_of_getLast? hlast
  unfold takeLine
  dsimp only
  rw [lineBytes_of_notMem h (Nat.lt_succ_self _), hclosed]
  cases ended with
  | false =>
    rw [if_neg (by simp)]
    rfl
  | true =>
    rw [if_pos (by simp), if_pos rfl, Incoming.drop, List.drop_length]

theorem readText_of_notMem {bytes : List UInt8} (h : lineFeed ∉ bytes) (ended : Bool) :
    readText ⟨bytes, ended⟩ =
      if ended = false then .error (.stopped .waiting)
      else if bytes = [] then .error (.stopped .ended)
      else
        match Text.decode? bytes with
        | some text => .ok (String.ofList (Text.trimLineEnd text.toList), ⟨[], true⟩)
        | none => .error (.stopped .notText) := by
  unfold readText
  dsimp only
  rw [takeLine_of_notMem h]
  cases ended with
  | false => rfl
  | true =>
    rw [if_pos rfl, if_neg (by decide)]
    cases bytes with
    | nil => rfl
    | cons b bs =>
      rewrite [if_neg (List.cons_ne_nil b bs)]
      rfl

theorem lineAhead_of_readText {text : String} (h : s.readText = .ok (text, rest)) :
    s.LineAhead text rest := by
  obtain ⟨bytes, ended⟩ := s
  -- The first line feed closes the line; without one only the end of the stream can.
  by_cases hfeed : lineFeed ∈ bytes
  · obtain ⟨front, back, rfl, hfront⟩ := List.eq_append_cons_of_mem hfeed
    rw [readText_of_closed hfront] at h
    split at h
    next whole hdecode =>
      obtain ⟨line, rfl, rfl⟩ :=
        Text.exists_of_encode_lineFeed (Text.eq_encode_of_decode? hdecode).symm
      cases h
      rw [trimLineEnd_append_lineFeed]
      exact .closed (lineFeed_mem_encode_iff.not.1 hfront) back ended
    · cases h
  · rw [readText_of_notMem hfeed] at h
    split at h
    · cases h
    next hended =>
      split at h
      · cases h
      next hne =>
        split at h
        next line hdecode =>
          obtain rfl := Text.eq_encode_of_decode? hdecode
          obtain rfl : ended = true := by simpa using hended
          cases h
          refine .last (lineFeed_mem_encode_iff.not.1 hfeed) ?_
          rintro rfl
          exact hne rfl
        · cases h

theorem readText_eq_ok_iff {text : String} :
    s.readText = .ok (text, rest) ↔ s.LineAhead text rest := by
  refine ⟨lineAhead_of_readText, fun h => ?_⟩
  cases h with
  | closed h rest ended => exact readText_lineFeed h rest ended
  | last h hne =>
    have hbytes : Text.encode _ ≠ [] := fun hnil => hne (Text.encode_injective hnil)
    rw [readText_of_notMem (lineFeed_mem_encode_iff.not.2 h), if_neg (by decide), if_neg hbytes,
      Text.decode?_encode]

theorem readTexts_succ_eq_ok_iff {count : Nat} {lines : List String} :
    s.readTexts (count + 1) = .ok (lines, rest) ↔ ∃ line s' more,
      s.readText = .ok (line, s') ∧ s'.readTexts count = .ok (more, rest) ∧
        lines = line :: more := by
  rw [readTexts, bind_eq_ok_iff]
  constructor
  · rintro ⟨⟨line, s'⟩, hline, h⟩
    obtain ⟨⟨more, s''⟩, hmore, h⟩ := bind_eq_ok_iff.1 h
    cases h
    exact ⟨line, s', more, hline, hmore, rfl⟩
  · rintro ⟨line, s', more, hline, hmore, rfl⟩
    exact ⟨(line, s'), hline, bind_eq_ok_iff.2 ⟨(more, rest), hmore, rfl⟩⟩

theorem readTexts_eq_ok_iff {count : Nat} {lines : List String} :
    s.readTexts count = .ok (lines, rest) ↔ s.LinesAhead lines rest ∧ lines.length = count := by
  induction count generalizing s lines with
  | zero =>
    constructor
    · intro h
      cases h
      exact ⟨.nil _, rfl⟩
    · rintro ⟨h, hlength⟩
      cases h with
      | nil => rfl
      | cons => cases hlength
  | succ count ih =>
    rw [readTexts_succ_eq_ok_iff]
    constructor
    · rintro ⟨line, s', more, hline, hmore, rfl⟩
      obtain ⟨hlines, hlength⟩ := ih.1 hmore
      exact ⟨.cons (readText_eq_ok_iff.1 hline) hlines, congrArg (· + 1) hlength⟩
    · rintro ⟨h, hlength⟩
      cases h with
      | nil => cases hlength
      | cons hline hlines =>
        exact ⟨_, _, _, readText_eq_ok_iff.2 hline,
          ih.2 ⟨hlines, Nat.succ.inj hlength⟩, rfl⟩

theorem readReply_eq_ok_iff {reply : Reply} :
    s.readReply = .ok (reply, rest) ↔ s.ReplyAhead reply rest := by
  unfold readReply ReplyAhead
  rw [bind_eq_ok_iff]
  simp only [← readText_eq_ok_iff]
  constructor
  · rintro ⟨⟨line, s'⟩, hline, h⟩
    split at h
    next hparse =>
      cases h
      exact ⟨line, hline, hparse⟩
    · cases h
  · rintro ⟨line, hline, hparse⟩
    refine ⟨(line, rest), hline, ?_⟩
    dsimp only
    rw [hparse]
    rfl

theorem takeBytes_eq_ok_iff {n : Nat} {data : List UInt8} :
    s.takeBytes n = .ok (data, rest) ↔ s = ⟨data ++ rest.bytes, rest.ended⟩ ∧ data.length = n := by
  unfold takeBytes
  constructor
  · intro h
    split at h
    next hn =>
      cases h
      refine ⟨?_, List.length_take_of_le hn⟩
      rw [bytes_drop, ended_drop, List.take_append_drop]
    · split at h <;> cases h
  · rintro ⟨rfl, rfl⟩
    rw [if_pos (by simp), List.take_left, drop, List.drop_left]

end Incoming

/-! ## Responses -/

/-- More follows the reply to a command: lines after the reply to a listing and bytes after the
reply to a read, when it has the number for it. -/
def Reply.IsFollowed (reply : Reply) : Command → Prop
  | .list _ => reply.code = ReplyCode.listing
  | .read _ _ _ => reply.code = ReplyCode.openingTransfer
  | _ => False

theorem Reply.not_isFollowed_of_negative {reply : Reply} (h : reply.isPositive = false)
    (command : Command) : ¬ reply.IsFollowed command := by
  have hcode : ∀ code < ReplyCode.leastNegative, reply.code ≠ code := by
    rintro _ hlt rfl
    exact absurd hlt (of_decide_eq_false h)
  intro hfollowed
  cases command with
  | list => exact hcode _ (by decide) hfollowed
  | read => exact hcode _ (by decide) hfollowed
  | _ => exact hfollowed

namespace Response

/-- A whole response to a command starts the stream, with `rest` behind it. -/
inductive Ahead (command : Command) (s : Incoming) :
    (response : Response) → (rest : Incoming) → Prop
  | plain {reply : Reply} {rest : Incoming} (h : s.ReplyAhead reply rest)
    (hmore : ¬ reply.IsFollowed command) : Ahead command s { reply := reply } rest
  | lines {reply : Reply} {path : String} {n : UInt64} {lines : List String}
    {behind rest : Incoming} (h : s.ReplyAhead reply behind) (hcommand : command = .list path)
    (hcode : reply.code = ReplyCode.listing) (hcount : count reply = .ok n)
    (hlines : behind.LinesAhead lines rest) (hlength : lines.length = n.toNat) :
    Ahead command s { reply := reply, lines := lines } rest
  | bytes {reply : Reply} {fd offset len n : UInt64} {data : List UInt8} {rest : Incoming}
    (h : s.ReplyAhead reply ⟨data ++ rest.bytes, rest.ended⟩)
    (hcommand : command = .read fd offset len)
    (hcode : reply.code = ReplyCode.openingTransfer) (hcount : count reply = .ok n)
    (hlength : data.length = n.toNat) (hasked : n ≤ len) :
    Ahead command s { reply := reply, data := data } rest

variable {command : Command} {s rest : Incoming} {response : Response}

theorem ahead_of_read (h : read command s = .ok (response, rest)) :
    Ahead command s response rest := by
  unfold read at h
  obtain ⟨⟨reply, behind⟩, hreply, h⟩ := bind_eq_ok_iff.1 h
  have hahead := Incoming.readReply_eq_ok_iff.1 hreply
  -- The reply is read; whether more is read depends on the command and on its number.
  cases command with
  | list path =>
    dsimp only at h
    split at h
    next hcode =>
      obtain ⟨n, hcount, h⟩ := bind_eq_ok_iff.1 h
      obtain ⟨⟨lines, rest'⟩, hlines, h⟩ := bind_eq_ok_iff.1 h
      cases h
      obtain ⟨hlines, hlength⟩ := Incoming.readTexts_eq_ok_iff.1 hlines
      exact .lines hahead rfl hcode hcount hlines hlength
    next hcode =>
      cases h
      exact .plain hahead hcode
  | read fd offset len =>
    dsimp only at h
    split at h
    next hcode =>
      obtain ⟨n, hcount, h⟩ := bind_eq_ok_iff.1 h
      split at h
      · cases h
      next hasked =>
        split at h
        next data rest' hbytes =>
          cases h
          obtain ⟨rfl, hlength⟩ := Incoming.takeBytes_eq_ok_iff.1 hbytes
          exact .bytes hahead rfl hcode hcount hlength (UInt64.not_lt.1 hasked)
        · cases h
    next hcode =>
      cases h
      exact .plain hahead hcode
  | _ =>
    cases h
    exact .plain hahead id

theorem read_eq_ok_iff : read command s = .ok (response, rest) ↔ Ahead command s response rest := by
  refine ⟨ahead_of_read, fun h => ?_⟩
  -- What lies ahead decides every test that the reader makes.
  cases h with
  | plain h hmore =>
    unfold read
    rw [Incoming.readReply_eq_ok_iff.2 h]
    simp only [bind, Except.bind]
    split
    · exact if_neg hmore
    · exact if_neg hmore
    · rfl
  | lines h hcommand hcode hcount hlines hlength =>
    subst hcommand
    unfold read
    rw [Incoming.readReply_eq_ok_iff.2 h]
    simp only [bind, Except.bind, if_pos hcode, hcount,
      Incoming.readTexts_eq_ok_iff.2 ⟨hlines, hlength⟩]
    rfl
  | bytes h hcommand hcode hcount hlength hasked =>
    subst hcommand
    unfold read
    rw [Incoming.readReply_eq_ok_iff.2 h]
    simp only [bind, Except.bind, if_pos hcode, hcount, if_neg (UInt64.not_lt.2 hasked),
      Incoming.takeBytes_eq_ok_iff.2 ⟨rfl, hlength⟩]
    rfl

theorem exists_read_eq_error (h : ¬ ∃ response rest, Ahead command s response rest) :
    ∃ error, read command s = .error error := by
  cases hread : read command s with
  | error error => exact ⟨error, rfl⟩
  | ok found => exact absurd ⟨found.1, found.2, read_eq_ok_iff.1 hread⟩ h

theorem ahead_negative_iff (hnegative : response.reply.isPositive = false) :
    Ahead command s response rest ↔
      s.ReplyAhead response.reply rest ∧ response = { reply := response.reply } := by
  constructor
  · intro h
    cases h with
    | plain h => exact ⟨h, rfl⟩
    | lines h hcommand hcode =>
      subst hcommand
      exact (Reply.not_isFollowed_of_negative hnegative (.list "") hcode).elim
    | bytes h hcommand hcode =>
      subst hcommand
      exact (Reply.not_isFollowed_of_negative hnegative (.read 0 0 0) hcode).elim
  · rintro ⟨h, hresponse⟩
    rw [hresponse]
    exact .plain h (Reply.not_isFollowed_of_negative hnegative command)

theorem length_data_of_ahead {fd offset len : UInt64}
    (h : Ahead (.read fd offset len) s response rest) : response.data.length ≤ len.toNat := by
  cases h with
  | plain | lines => exact Nat.zero_le _
  | bytes h hcommand hcode hcount hlength hasked =>
    cases hcommand
    rw [hlength]
    exact UInt64.le_iff_toNat_le.1 hasked

end Response

end VolumeStore
