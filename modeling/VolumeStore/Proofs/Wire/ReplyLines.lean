import VolumeStore.Client.Response
import VolumeStore.Error
import VolumeStore.Proofs.Text.LineEnd
import VolumeStore.Proofs.Text.Words

/-!
# Reply lines

A reply with a number of three digits and a text that fits on a line is read back from its line, and
so is a row of lines behind it, whatever follows.
-/

namespace VolumeStore

namespace Text

/-- The text takes one line: it holds no line feed and does not end in a carriage return. -/
def OneLine (text : String) : Prop :=
  '\n' ∉ text.toList ∧ text.toList.getLast? ≠ some '\r'

instance (text : String) : Decidable (OneLine text) :=
  inferInstanceAs (Decidable (_ ∧ _))

theorem OneLine.endsOpen {text : String} (h : OneLine text) : EndsOpen text.toList := by
  intro last hlast
  have hfeed : last ≠ '\n' := by
    rintro rfl
    exact h.1 (List.mem_of_getLast? hlast)
  have hreturn : last ≠ '\r' := by
    rintro rfl
    exact h.2 hlast
  simp [isLineEnd, hfeed, hreturn]

theorem oneLine_append_cons {front : List Char} {c : Char} {text : String} (hfront : '\n' ∉ front)
    (hc : isLineEnd c = false) (h : OneLine text) :
    OneLine (String.ofList (front ++ c :: text.toList)) := by
  have hopen : EndsOpen (front ++ c :: text.toList) := by
    apply trimLineEnd_eq_self_iff.1
    rw [trimLineEnd, dropTrailing_append_cons _ _ hc]
    exact congrArg (front ++ c :: ·) (trimLineEnd_eq_self_iff.2 h.endsOpen)
  unfold OneLine
  rw [String.toList_ofList]
  constructor
  · rw [List.mem_append, List.mem_cons, not_or, not_or]
    refine ⟨hfront, ?_, h.1⟩
    rintro rfl
    cases hc
  · intro hlast
    exact absurd (hopen _ hlast) (by decide)

theorem oneLine_trimLineEnd {cs : List Char} (h : '\n' ∉ cs) :
    OneLine (String.ofList (trimLineEnd cs)) := by
  unfold OneLine
  rw [String.toList_ofList]
  constructor
  · exact fun hmem => h ((List.rdropWhile_prefix isLineEnd (l := cs)).subset hmem)
  · intro hlast
    exact absurd (endsOpen_trimLineEnd cs _ hlast) (by decide)

/-! ## Decimal digits -/

theorem isBlank_of_isDigitOf {c : Char} (h : isDigitOf 10 c = true) : isBlank c = false := by
  have hzero : '0'.toNat = 48 := rfl
  simp only [isDigitOf, Bool.and_eq_true, decide_eq_true_eq] at h
  simp only [isBlank, Bool.or_eq_false_iff, Bool.and_eq_false_iff, decide_eq_false_iff_not,
    beq_eq_false_iff_ne]
  omega

theorem utf8Size_of_isDigitOf {c : Char} (h : isDigitOf 10 c = true) : c.utf8Size = 1 := by
  have hzero : '0'.toNat = 48 := rfl
  have hval : c.val.toNat = c.toNat := rfl
  simp only [isDigitOf, Bool.and_eq_true, decide_eq_true_eq] at h
  apply Char.utf8Size_eq_one_iff.2
  rw [UInt32.le_iff_toNat_le]
  show c.val.toNat ≤ 127
  omega

theorem byteLength_of_digits {cs : List Char} (h : ∀ c ∈ cs, isDigitOf 10 c = true) :
    byteLength cs = cs.length := by
  induction cs with
  | nil => rfl
  | cons c cs ih =>
    rw [byteLength_cons, utf8Size_of_isDigitOf (h c List.mem_cons_self),
      ih fun c hc => h c (List.mem_cons_of_mem _ hc), List.length_cons, Nat.add_comm]

theorem trimBlanks_decimal (n : Nat) : trimBlanks (decimal n).toList = (decimal n).toList := by
  have hplain : ∀ c ∈ (decimal n).toList, isBlank c = false :=
    fun c hc => isBlank_of_isDigitOf (isDigitOf_of_mem_decimal hc)
  have hfront : dropBlanks (decimal n).toList = (decimal n).toList := by
    unfold dropBlanks
    rw [List.dropWhile_eq_self_iff]
    intro hlen
    rw [hplain _ (List.getElem_mem hlen)]
    decide
  rw [trimBlanks, hfront, dropTrailing_eq_rdropWhile, List.rdropWhile_eq_self_iff]
  intro hne
  rw [hplain _ (List.getLast_mem hne)]
  decide

theorem oneLine_decimal (n : Nat) : OneLine (decimal n) := by
  constructor
  · exact fun hmem => absurd (isDigitOf_of_mem_decimal hmem) (by decide)
  · exact fun hlast => absurd (isDigitOf_of_mem_decimal (List.mem_of_getLast? hlast)) (by decide)

theorem words_decimal (n : Nat) : words (decimal n).toList = [(decimal n).toList] :=
  words_singleton (by simp) fun c hc => isBlank_of_isDigitOf (isDigitOf_of_mem_decimal hc)

theorem length_decimal_of_three {n : Nat} (hlow : 100 ≤ n) (hhigh : n < 1000) :
    (decimal n).toList.length = 3 := by
  rw [toList_decimal, Nat.toDigits_of_base_le (by decide) (by omega),
    Nat.toDigits_of_base_le (by decide) (by omega), Nat.toDigits_of_lt_base (by omega)]
  rfl

end Text

/-! ## Lines -/

namespace Incoming

theorem readText_of_closed {line : List UInt8} (h : lineFeed ∉ line) (rest : List UInt8)
    (ended : Bool) :
    readText ⟨line ++ lineFeed :: rest, ended⟩ =
      match Text.decode? (line ++ [lineFeed]) with
      | some text => .ok (String.ofList (Text.trimLineEnd text.toList), ⟨rest, ended⟩)
      | none => .error (.stopped .notText) := by
  have hline : lineBytes ((line ++ lineFeed :: rest).length + 1) (line ++ lineFeed :: rest) =
      line ++ [lineFeed] := by
    apply lineBytes_line h
    rw [List.length_append]
    omega
  have hclosed : isClosed (line ++ [lineFeed]) = true := by simp [isClosed]
  have htake : takeLine ⟨line ++ lineFeed :: rest, ended⟩
      ((line ++ lineFeed :: rest).length + 1) = .ok (line ++ [lineFeed], ⟨rest, ended⟩) := by
    unfold takeLine
    simp only [hline, hclosed, Bool.true_or, if_true, Incoming.drop]
    rw [List.append_cons line lineFeed rest, List.drop_left]
  -- The line feed is there, so there is something to read.
  obtain ⟨b, bs, hcons⟩ := List.exists_cons_of_ne_nil
    (List.append_ne_nil_of_right_ne_nil line (List.cons_ne_nil lineFeed []))
  rw [hcons] at htake ⊢
  unfold readText
  dsimp only
  rewrite [htake]
  rfl

theorem lineFeed_mem_encode_iff {line : String} :
    lineFeed ∈ Text.encode line ↔ '\n' ∈ line.toList := by
  refine ⟨Text.mem_toList_of_mem_encode (by decide) (by decide), fun h => ?_⟩
  rw [Text.encode_eq_flatMap]
  exact List.mem_flatMap.2 ⟨'\n', h, by decide⟩

theorem trimLineEnd_append_lineFeed (line : String) :
    Text.trimLineEnd (line ++ "\n").toList = Text.trimLineEnd line.toList := by
  rw [String.toList_append]
  exact Text.trimLineEnd_concat line.toList rfl

theorem readText_lineFeed {line : String} (h : '\n' ∉ line.toList) (rest : List UInt8)
    (ended : Bool) :
    readText ⟨Text.encode line ++ lineFeed :: rest, ended⟩ =
      .ok (String.ofList (Text.trimLineEnd line.toList), ⟨rest, ended⟩) := by
  have hdecode : Text.decode? (Text.encode line ++ [lineFeed]) = some (line ++ "\n") := by
    rw [Text.decode?_eq_some_iff, Text.encode_append]
    rfl
  rw [readText_of_closed (lineFeed_mem_encode_iff.not.2 h), hdecode]
  dsimp only
  rw [trimLineEnd_append_lineFeed]

theorem readText_lineEnd {text : String} (h : Text.OneLine text) (rest : List UInt8)
    (ended : Bool) :
    readText ⟨Text.encode (text ++ Reply.lineEnd) ++ rest, ended⟩ = .ok (text, ⟨rest, ended⟩) := by
  have hencode : Text.encode (text ++ Reply.lineEnd) ++ rest =
      Text.encode (text ++ "\r") ++ lineFeed :: rest := by
    rw [Text.encode_append, Text.encode_append, List.append_assoc, List.append_assoc]
    rfl
  have hfeed : '\n' ∉ (text ++ "\r").toList := by
    rw [String.toList_append, List.mem_append, not_or]
    exact ⟨h.1, by decide⟩
  have htrim : Text.trimLineEnd (text ++ "\r").toList = text.toList := by
    rw [String.toList_append]
    exact (Text.trimLineEnd_concat text.toList rfl).trans
      (Text.trimLineEnd_eq_self_iff.2 h.endsOpen)
  rw [hencode, readText_lineFeed hfeed, htrim, String.ofList_toList]

theorem readTexts_lineEnd {lines : List String} (h : ∀ line ∈ lines, Text.OneLine line)
    (rest : List UInt8) (ended : Bool) :
    readTexts lines.length
        ⟨(lines.flatMap fun line => Text.encode (line ++ Reply.lineEnd)) ++ rest, ended⟩ =
      .ok (lines, ⟨rest, ended⟩) := by
  induction lines with
  | nil => rfl
  | cons line lines ih =>
    have hrest := ih fun line hmem => h line (List.mem_cons_of_mem _ hmem)
    rw [List.flatMap_cons, List.append_assoc, List.length_cons, readTexts,
      readText_lineEnd (h line List.mem_cons_self)]
    simp only [bind, Except.bind, hrest]
    rfl

end Incoming

/-! ## Replies -/

namespace ReplyCode

def refusals : List UInt16 :=
  [unavailable, localError, unknownCommand, syntaxError, badSequence, notMounted, notTaken,
    tooLarge]

def IsThreeDigits (code : UInt16) : Prop :=
  100 ≤ code.toNat ∧ code.toNat < 1000

instance (code : UInt16) : Decidable (IsThreeDigits code) :=
  inferInstanceAs (Decidable (_ ∧ _))

theorem IsThreeDigits.parseCode? {code : UInt16} (h : IsThreeDigits code) :
    Reply.parseCode? (Text.decimal code.toNat).toList = some code := by
  have hwidth : Text.byteLength (Text.decimal code.toNat).toList = width := by
    rw [Text.byteLength_of_digits fun c hc => Text.isDigitOf_of_mem_decimal hc]
    exact Text.length_decimal_of_three h.1 h.2
  unfold Reply.parseCode?
  rw [if_pos hwidth, Text.readUInt16?, Text.toList_decimal,
    Text.readNumeral?_toDigits 10 (by decide) (by decide) code.toNat_lt, Option.map_some,
    UInt16.ofNat_toNat]

end ReplyCode

theorem StoreError.replyCode_mem_tail {error : StoreError}
    (h : ∀ limit, error ≠ .session (.tooManySessions limit)) :
    error.replyCode.1 ∈ ReplyCode.refusals.tail := by
  have hlocal : ReplyCode.localError ∈ ReplyCode.refusals.tail := by decide
  have htaken : ReplyCode.notTaken ∈ ReplyCode.refusals.tail := by decide
  have hunknown : ReplyCode.unknownCommand ∈ ReplyCode.refusals.tail := by decide
  have hsyntax : ReplyCode.syntaxError ∈ ReplyCode.refusals.tail := by decide
  have hlarge : ReplyCode.tooLarge ∈ ReplyCode.refusals.tail := by decide
  have hmounted : ReplyCode.notMounted ∈ ReplyCode.refusals.tail := by decide
  have hsequence : ReplyCode.badSequence ∈ ReplyCode.refusals.tail := by decide
  -- Each kind of error has one of these codes, but for a session that is turned away.
  cases error with
  | volume error =>
    cases error with
    | host => exact hlocal
    | _ => exact htaken
  | wire error =>
    cases error with
    | unknownCommand | commandTooLong => exact hunknown
    | syntaxError | malformedReply | invalidStat => exact hsyntax
    | payloadTooLarge => exact hlarge
  | session error =>
    cases error with
    | notMounted | unknownVolume => exact hmounted
    | tooManySessions limit => exact absurd rfl (h limit)
    | invalidState => exact hsequence
  | client | host | settings => exact hlocal

theorem StoreError.replyCode_mem_refusals (error : StoreError) :
    error.replyCode.1 ∈ ReplyCode.refusals := by
  by_cases hcrowded : ∃ limit, error = .session (.tooManySessions limit)
  · obtain ⟨limit, rfl⟩ := hcrowded
    exact List.mem_cons_self
  · rw [not_exists] at hcrowded
    exact List.mem_of_mem_tail (replyCode_mem_tail hcrowded)

theorem StoreError.replyCode_of_all (p : UInt16 → Prop) [DecidablePred p]
    (h : (ReplyCode.refusals.all fun code => decide (p code)) = true) (error : StoreError) :
    p error.replyCode.1 :=
  of_decide_eq_true (List.all_eq_true.1 h _ error.replyCode_mem_refusals)

namespace Reply

variable {reply : Reply}

theorem parse_append_lineEnd (line : String) : parse (line ++ lineEnd) = parse line := by
  unfold parse
  rw [String.toList_append, Text.trimLineEnd_append_lineEnd]

theorem parse_line (hcode : ReplyCode.IsThreeDigits reply.code) (htext : Text.OneLine reply.text) :
    Text.OneLine (Text.decimal reply.code.toNat ++ " " ++ reply.text) ∧
      parse (Text.decimal reply.code.toNat ++ " " ++ reply.text) = .ok reply := by
  have hdigits : ∀ sep : Char, Text.isDigitOf 10 sep = false →
      sep ∉ (Text.decimal reply.code.toNat).toList := by
    intro sep hsep hmem
    rw [Text.isDigitOf_of_mem_decimal hmem] at hsep
    cases hsep
  have hsplit : (Text.decimal reply.code.toNat ++ " " ++ reply.text).toList =
      (Text.decimal reply.code.toNat).toList ++ ' ' :: reply.text.toList := by
    rw [String.toList_append, String.toList_append, List.append_assoc]
    rfl
  have hline : Text.OneLine (Text.decimal reply.code.toNat ++ " " ++ reply.text) := by
    rw [← String.ofList_toList (s := Text.decimal reply.code.toNat ++ " " ++ reply.text), hsplit]
    exact Text.oneLine_append_cons (hdigits '\n' (by decide)) (by decide) htext
  refine ⟨hline, ?_⟩
  unfold parse
  dsimp only
  rw [Text.trimLineEnd_eq_self_iff.2 hline.endsOpen, hsplit,
    Text.firstField_append_cons (hdigits ' ' (by decide)), hcode.parseCode?]
  simp only [Option.getD_some, String.ofList_toList]

theorem parse_toLine (hcode : ReplyCode.IsThreeDigits reply.code)
    (htext : Text.OneLine reply.text) : parse reply.toLine = .ok reply := by
  unfold toLine
  rw [parse_append_lineEnd, (parse_line hcode htext).2]

end Reply

theorem Incoming.readReply_toLine {reply : Reply} (hcode : ReplyCode.IsThreeDigits reply.code)
    (htext : Text.OneLine reply.text) (rest : List UInt8) (ended : Bool) :
    readReply ⟨Text.encode reply.toLine ++ rest, ended⟩ = .ok (reply, ⟨rest, ended⟩) := by
  obtain ⟨hline, hparse⟩ := Reply.parse_line hcode htext
  unfold readReply Reply.toLine
  rw [readText_lineEnd hline]
  simp only [bind, Except.bind, hparse]
  rfl

theorem Incoming.exists_readReply {reply : Reply} (hcode : ReplyCode.IsThreeDigits reply.code)
    (rest : List UInt8) (ended : Bool) :
    ∃ text rest', readReply ⟨Text.encode reply.toLine ++ rest, ended⟩ =
      .ok (⟨reply.code, text⟩, rest') := by
  -- There is a first line feed: one of the text, or the one behind it.
  obtain ⟨cut, back, hsplit, hcut⟩ := List.eq_append_cons_of_mem
    (List.mem_append_right reply.text.toList
      (show '\n' ∈ Reply.lineEnd.toList by decide))
  have hline : reply.toLine =
      Text.decimal reply.code.toNat ++ " " ++ String.ofList cut ++ "\n" ++ String.ofList back := by
    apply String.toList_injective
    unfold Reply.toLine
    simp only [String.toList_append, List.append_assoc, hsplit, String.toList_ofList]
    rfl
  have hencode : Text.encode reply.toLine ++ rest =
      Text.encode (Text.decimal reply.code.toNat ++ " " ++ String.ofList cut) ++
        lineFeed :: (Text.encode (String.ofList back) ++ rest) := by
    rw [hline, Text.encode_append, Text.encode_append, List.append_assoc, List.append_assoc]
    rfl
  have hdigits : '\n' ∉ (Text.decimal reply.code.toNat).toList := by
    intro hmem
    exact absurd (Text.isDigitOf_of_mem_decimal hmem) (by decide)
  have hfeed : '\n' ∉ (Text.decimal reply.code.toNat ++ " " ++ String.ofList cut).toList := by
    simp only [String.toList_append, String.toList_ofList, List.mem_append, not_or]
    exact ⟨⟨hdigits, by decide⟩, hcut⟩
  have htrim : String.ofList (Text.trimLineEnd
      (Text.decimal reply.code.toNat ++ " " ++ String.ofList cut).toList) =
      Text.decimal reply.code.toNat ++ " " ++ String.ofList (Text.trimLineEnd cut) := by
    apply String.toList_injective
    simp only [String.toList_append, String.toList_ofList, List.append_assoc]
    exact Text.dropTrailing_append_cons _ _ (by decide)
  obtain ⟨-, hparse⟩ := @Reply.parse_line ⟨reply.code, String.ofList (Text.trimLineEnd cut)⟩
    hcode (Text.oneLine_trimLineEnd hcut)
  refine ⟨String.ofList (Text.trimLineEnd cut), ⟨Text.encode (String.ofList back) ++ rest, ended⟩,
    ?_⟩
  unfold readReply
  rw [hencode, readText_lineFeed hfeed, htrim]
  simp only [bind, Except.bind, hparse]
  rfl

end VolumeStore
