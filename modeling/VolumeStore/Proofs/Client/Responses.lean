import VolumeStore.Proofs.Session.Atomicity
import VolumeStore.Proofs.Session.Steps
import VolumeStore.Proofs.Wire.ReplyLines

/-!
# Responses

What a store writes for a request and what a client reads for it agree: the client takes exactly the
reply with the lines or the bytes that belong to it, and what follows is left for the next response.
-/

namespace VolumeStore

/-! ## What a store answers -/

def Attachment.texts : Attachment → List String
  | .lines texts => texts
  | _ => []

def Attachment.data : Attachment → List UInt8
  | .bytes data => data
  | _ => []

/-- What a store can answer to a command: what carrying it out comes to, with or without a volume,
or any refusal. -/
inductive Outcome.AnswerOf (command : Command) : Outcome → Prop
  | mounted (settings : StoreSettings) (s : Session) (t : Host.Tree) (payload : List UInt8) :
    AnswerOf command (s.executeMounted settings t command payload).outcome
  | unmounted (settings : StoreSettings) (s : Session) (t : Host.Tree) :
    AnswerOf command (s.executeUnmounted settings t command).outcome
  | failed (error : StoreError) : AnswerOf command (.failed error)

/-- Every text of the outcome fits on a line of its own, and 64 bits are enough to count the lines.
-/
structure Outcome.OnLines (o : Outcome) : Prop where
  text : Text.OneLine o.reply.text
  lines : ∀ line ∈ o.attachment.texts, Text.OneLine line
  count : o.attachment.texts.length < UInt64.size

namespace ReplyCode

/-- A number of three digits behind which nothing follows the line of the reply. -/
def IsPlain (code : UInt16) : Prop :=
  IsThreeDigits code ∧ code ≠ listing ∧ code ≠ openingTransfer

instance (code : UInt16) : Decidable (IsPlain code) :=
  inferInstanceAs (Decidable (_ ∧ _))

theorem isPlain_of_mem_completions {code : UInt16} (h : code ∈ completions) : IsPlain code := by
  have hplain : (completions.all fun code => decide (IsPlain code)) = true := by
    decide
  exact of_decide_eq_true (List.all_eq_true.1 hplain _ h)

end ReplyCode

theorem StoreError.isPlain_replyCode (error : StoreError) :
    ReplyCode.IsPlain error.replyCode.1 :=
  error.replyCode_of_all ReplyCode.IsPlain (by decide)

/-- How a reply announces what follows it: lines only after a listing and bytes only after a read,
both with their number as the text. -/
inductive Announced (command : Command) : Reply → Attachment → Prop
  | nothing {reply : Reply} (h : ReplyCode.IsPlain reply.code) : Announced command reply .none
  | lines {path : String} (h : command = .list path) (lines : List String) :
    Announced command ⟨ReplyCode.listing, Text.decimal lines.length⟩ (.lines lines)
  | bytes {fd offset len : UInt64} (h : command = .read fd offset len) {data : List UInt8}
    (hlen : data.length ≤ len.toNat) :
    Announced command ⟨ReplyCode.openingTransfer, Text.decimal data.length⟩ (.bytes data)

theorem Announced.isThreeDigits {command : Command} {reply : Reply} {attachment : Attachment}
    (h : Announced command reply attachment) : ReplyCode.IsThreeDigits reply.code := by
  cases h with
  | nothing h => exact h.1
  | lines => exact (by decide : ReplyCode.IsThreeDigits ReplyCode.listing)
  | bytes => exact (by decide : ReplyCode.IsThreeDigits ReplyCode.openingTransfer)

theorem Session.Step.announced {s : Session} {command : Command} {e : Execution}
    (h : s.Step command e) : Announced command e.outcome.reply e.outcome.attachment := by
  cases h with
  | refused error => exact .nothing error.isPlain_replyCode
  | answered hcommand hcode => exact .nothing (ReplyCode.isPlain_of_mem_completions hcode)
  | mounted => exact .nothing (show ReplyCode.IsPlain ReplyCode.mounted by decide)
  | left => exact .nothing (show ReplyCode.IsPlain ReplyCode.goodbye by decide)
  | began => exact .nothing (show ReplyCode.IsPlain ReplyCode.pending by decide)
  | listed lines => exact .lines rfl lines
  | opened => exact .nothing (show ReplyCode.IsPlain ReplyCode.done by decide)
  | stopped hcommand handle error => exact .nothing error.isPlain_replyCode
  | wrote | closed => exact .nothing (show ReplyCode.IsPlain ReplyCode.actionDone by decide)
  | read handle hlen => exact .bytes rfl hlen

theorem Outcome.AnswerOf.announced {command : Command} {o : Outcome} (h : AnswerOf command o) :
    Announced command o.reply o.attachment := by
  cases h with
  | mounted settings s t payload =>
    exact (s.step_executeMounted settings t command payload).announced
  | unmounted settings s t => exact (s.step_executeUnmounted settings t command).announced
  | failed error => exact .nothing error.isPlain_replyCode

/-! ## What a client reads -/

namespace Response

theorem count_decimal {code : UInt16} {n : Nat} (h : n < UInt64.size) :
    count ⟨code, Text.decimal n⟩ = .ok (UInt64.ofNat n) := by
  unfold count
  rw [Text.trimBlanks_decimal, Text.toList_decimal, Text.readUInt64?,
    Text.readNumeral?_toDigits 10 (by decide) (by decide) h]
  rfl

theorem firstNumber_decimal {code : UInt16} {n : Nat} (h : n < UInt64.size) :
    firstNumber { reply := ⟨code, Text.decimal n⟩ } = .ok (UInt64.ofNat n) := by
  unfold firstNumber
  rw [Text.words_decimal, List.head?_cons, Option.bind_some, Text.toList_decimal,
    Text.readUInt64?, Text.readNumeral?_toDigits 10 (by decide) (by decide) h]
  rfl

theorem read_of_isPlain {command : Command} {reply : Reply} {s rest : Incoming}
    (hplain : ReplyCode.IsPlain reply.code) (h : s.readReply = .ok (reply, rest)) :
    read command s = .ok ({ reply := reply }, rest) := by
  unfold read
  rw [h]
  simp only [bind, Except.bind]
  split
  · rw [if_neg hplain.2.1]
    rfl
  · rw [if_neg hplain.2.2]
    rfl
  · rfl

theorem read_of_lines {path : String} {lines : List String} {s rest rest' : Incoming}
    (hcount : lines.length < UInt64.size)
    (h : s.readReply = .ok (⟨ReplyCode.listing, Text.decimal lines.length⟩, rest))
    (hlines : rest.readTexts lines.length = .ok (lines, rest')) :
    read (.list path) s =
      .ok ({ reply := ⟨ReplyCode.listing, Text.decimal lines.length⟩, lines := lines }, rest') := by
  have hn : (UInt64.ofNat lines.length).toNat = lines.length := UInt64.toNat_ofNat_of_lt' hcount
  unfold read
  rw [h]
  simp only [bind, Except.bind, if_true, count_decimal hcount, hn, hlines]
  rfl

theorem read_of_bytes {fd offset len : UInt64} {data : List UInt8} {s : Incoming}
    {rest : List UInt8} {ended : Bool} (hlen : data.length ≤ len.toNat)
    (h : s.readReply = .ok (⟨ReplyCode.openingTransfer, Text.decimal data.length⟩,
      ⟨data ++ rest, ended⟩)) :
    read (.read fd offset len) s =
      .ok ({ reply := ⟨ReplyCode.openingTransfer, Text.decimal data.length⟩, data := data },
        ⟨rest, ended⟩) := by
  have hsize : data.length < UInt64.size := Nat.lt_of_le_of_lt hlen len.toNat_lt
  have hn : (UInt64.ofNat data.length).toNat = data.length := UInt64.toNat_ofNat_of_lt' hsize
  have hasked : ¬ len < UInt64.ofNat data.length := by
    rw [UInt64.lt_iff_toNat_lt, hn]
    omega
  have htake : Incoming.takeBytes ⟨data ++ rest, ended⟩ data.length =
      .ok (data, ⟨rest, ended⟩) := by
    unfold Incoming.takeBytes Incoming.drop
    rw [if_pos (by simp), List.take_left, List.drop_left]
  unfold read
  rw [h]
  simp only [bind, Except.bind, if_true, count_decimal hsize, if_neg hasked, hn, htake]
  rfl

/-- A client that asks for a command reads from what the store answers exactly the reply, the lines
and the bytes of the outcome, and stops where the outcome ends. -/
theorem read_toBytes {command : Command} {o : Outcome} (ho : o.AnswerOf command)
    (hlines : o.OnLines) (rest : List UInt8) (ended : Bool) :
    read command ⟨o.toBytes ++ rest, ended⟩ =
      .ok (⟨o.reply, o.attachment.texts, o.attachment.data⟩, ⟨rest, ended⟩) := by
  obtain ⟨htext, hattached, hcount⟩ := hlines
  have hannounced := ho.announced
  have hreply := Incoming.readReply_toLine hannounced.isThreeDigits htext
    (Outcome.attachmentBytes o.attachment ++ rest) ended
  unfold Outcome.toBytes
  rw [List.append_assoc]
  generalize o.reply = reply, o.attachment = attachment at *
  -- A store looks at the attachment and a client at the command and the number of the reply: the
  -- cases are those in which both go on alike.
  cases hannounced with
  | nothing h => exact read_of_isPlain h hreply
  | lines h lines =>
    rw [h]
    exact read_of_lines hcount hreply (Incoming.readTexts_lineEnd hattached rest ended)
  | bytes h hlen =>
    rw [h]
    exact read_of_bytes hlen hreply

def listedVolume : Host.Tree where
  nodes := [([Text.encode "vol"], .directory), ([Text.encode "vol", Text.encode "d"], .directory)]

theorem read_toBytes_listedVolume :
    let o := (Session.onEmptyVolume.executeMounted {} listedVolume (.list "/") []).outcome
    o.AnswerOf (.list "/") ∧ o.OnLines ∧
      read (.list "/") ⟨o.toBytes ++ [lineFeed], false⟩ =
        .ok (⟨⟨ReplyCode.listing, "1"⟩, ["d|d|0|0"], []⟩, ⟨[lineFeed], false⟩) := by
  intro o
  have ho : o = .done ⟨ReplyCode.listing, "1"⟩ (.lines ["d|d|0|0"]) := by decide +kernel
  have hanswer : o.AnswerOf (.list "/") := .mounted {} _ _ []
  have hlines : o.OnLines := by
    rw [ho]
    exact ⟨by decide +kernel, by decide +kernel, by decide +kernel⟩
  have hread := read_toBytes hanswer hlines [lineFeed] false
  rw [ho] at hread ⊢
  exact ⟨ho ▸ hanswer, ho ▸ hlines, hread⟩

end Response

end VolumeStore
