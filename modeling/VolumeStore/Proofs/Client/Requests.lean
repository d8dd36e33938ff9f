import VolumeStore.Client.Files
import VolumeStore.Proofs.Server.Framing
import VolumeStore.Proofs.Volume.Written
import VolumeStore.Proofs.Wire.RequestLines

/-!
# What a client sends

Whatever is asked of a client, it sends whole requests: lines that hold no line end and are closed
by one, each with the payload it announces. A store that allows for the length of the line reads
the command that the client wrote.
-/

namespace VolumeStore

namespace ClientRequest

/-- The request of a call: its paths are in canonical form, its volume has a name that a volume can
have, its flags can be used, and the payload is as long as the line says. -/
structure Proper (r : ClientRequest) : Prop where
  volume : ∀ name, r.command = .mount name → isVolumeName name = true
  path : ∀ path ∈ r.command.text?, (∀ name, r.command ≠ .mount name) →
    ∃ written, VolumePath.normalize written = .ok path
  flags : ∀ flags ∈ r.command.flags?, flags.fault? = none
  payload : r.payload.length = (r.command.payloadLength?.getD 0).toNat

/-- The bytes of a request are its line, one carriage return with a line feed, and the payload. The
line is read as the command, and a store that allows for its length takes it with the payload and
nothing else. -/
structure Delivers (r : ClientRequest) : Prop where
  line : ∃ line, r.toBytes = line ++ 0x0d :: lineFeed :: r.payload ∧
    0x0d ∉ line ∧ lineFeed ∉ line ∧
    ∃ text, Text.decode? (line ++ [0x0d, lineFeed]) = some text ∧
      Command.parse text = .ok r.command
  read : ∀ (settings : StoreSettings) (rest : List UInt8) (ended : Bool),
    Text.byteLength r.command.toLine.toList ≤ settings.maxCommandLength.toNat →
    settings.maxCommandLength.toNat + 2 < UInt64.size →
    Incoming.readRequest ⟨r.toBytes ++ rest, ended⟩ settings =
      .ok (.command r.command
        (if settings.maxPayload.toNat < r.payload.length then
          .error (.payloadTooLarge r.payload.length settings.maxPayload.toNat)
        else .ok r.payload), ⟨rest, ended⟩)

/-! ## Paths and names hold no line end -/

theorem isLineEnd_of_isControl {c : Char} (h : VolumePath.isControl c = false) :
    Text.isLineEnd c = false := by
  unfold VolumePath.isControl at h
  unfold Text.isLineEnd
  simp_all

theorem line_of_isVolumeName {name : String} (h : isVolumeName name = true) :
    name ≠ "" ∧ ∀ c ∈ name.toList, Text.isLineEnd c = false := by
  unfold isVolumeName at h
  simp only [Bool.and_eq_true, Bool.not_eq_true', List.any_eq_false] at h
  constructor
  · rintro rfl
    exact absurd h.1.1.1.1.1 (by decide)
  · intro c hc
    have hslash := h.1.2 c hc
    simp only [Bool.or_eq_true, not_or, Bool.not_eq_true] at hslash
    exact isLineEnd_of_isControl hslash.2

theorem line_of_normalize {written path : String} (h : VolumePath.normalize written = .ok path) :
    path ≠ "" ∧ ∀ c ∈ path.toList, Text.isLineEnd c = false := by
  unfold VolumePath.normalize at h
  cases hp : VolumePath.parse written with
  | error error =>
    rw [hp] at h
    cases h
  | ok p =>
    rw [hp] at h
    cases h
    refine ⟨fun hnil => ?_, fun c hc => isLineEnd_of_isControl ?_⟩
    · have htext := VolumePath.toList_render p
      rw [hnil] at htext
      cases htext
    · exact VolumePath.isControl_of_mem_render hp hc

/-! ## On the wire -/

theorem toBytes_eq (r : ClientRequest) :
    r.toBytes = Text.encode r.command.toLine ++ 0x0d :: lineFeed :: r.payload := by
  have hend : Text.encode Reply.lineEnd = [0x0d, lineFeed] := by decide
  rw [toBytes, Text.encode_append, hend, List.append_assoc]
  rfl

def frame (r : ClientRequest) : Frame :=
  ⟨r.command.toLine, true, r.payload⟩

theorem bytes_frame (r : ClientRequest) : r.frame.bytes = r.toBytes :=
  rfl

namespace Proper

variable {r : ClientRequest}

theorem line_of_text (h : r.Proper) {text : String} (ht : text ∈ r.command.text?) :
    text ≠ "" ∧ ∀ c ∈ text.toList, Text.isLineEnd c = false := by
  by_cases hmount : ∃ name, r.command = .mount name
  · obtain ⟨name, hname⟩ := hmount
    rw [hname] at ht
    cases ht
    exact line_of_isVolumeName (h.volume _ hname)
  · obtain ⟨written, hwritten⟩ := h.path text ht fun name hname => hmount ⟨name, hname⟩
    exact line_of_normalize hwritten

theorem legible (h : r.Proper) : r.command.Legible where
  text _ ht := ⟨(h.line_of_text ht).1, Text.endsOpen_of_forall (h.line_of_text ht).2⟩
  flags := h.flags

theorem isLineEnd_of_mem_toLine (h : r.Proper) {c : Char} (hc : c ∈ r.command.toLine.toList) :
    Text.isLineEnd c = false :=
  Command.isLineEnd_of_mem_toLine (fun _ ht => (h.line_of_text ht).2) hc

theorem notMem_encode (h : r.Proper) {b : UInt8} {c : Char} (hb : b.toNat < 128)
    (hc : c.toNat = b.toNat) (hend : Text.isLineEnd c = true) :
    b ∉ Text.encode r.command.toLine := by
  intro hmem
  have hplain := h.isLineEnd_of_mem_toLine (Text.mem_toList_of_mem_encode hb hc hmem)
  rw [hend] at hplain
  cases hplain

theorem parse_lineEnd (h : r.Proper) :
    Command.parse (r.command.toLine ++ Reply.lineEnd) = .ok r.command := by
  rw [Command.parse_append_lineEnd]
  exact Command.parse_toLine h.legible

theorem whole_frame (h : r.Proper) {limit : UInt64}
    (hshort : Text.byteLength r.command.toLine.toList ≤ limit.toNat) : r.frame.Whole limit where
  short := hshort
  oneLine hmem := absurd (h.isLineEnd_of_mem_toLine hmem) (by decide)
  bare hlast := absurd (h.isLineEnd_of_mem_toLine (List.mem_of_getLast? hlast)) (by decide)
  complete := by
    show r.payload.length = Frame.announced r.command.toLine
    rw [Frame.announced_eq (Command.parse_toLine h.legible)]
    exact h.payload

theorem request_frame (h : r.Proper) (settings : StoreSettings) :
    r.frame.request settings = .command r.command
      (if settings.maxPayload.toNat < r.payload.length then
        .error (.payloadTooLarge r.payload.length settings.maxPayload.toNat)
      else .ok r.payload) := by
  have hparse : Command.parse r.frame.line = .ok r.command := Command.parse_toLine h.legible
  unfold Frame.request
  rw [hparse]
  rfl

theorem delivers (h : r.Proper) : r.Delivers where
  line := by
    refine ⟨_, r.toBytes_eq, ?_, ?_, r.command.toLine ++ Reply.lineEnd, ?_, h.parse_lineEnd⟩
    · exact h.notMem_encode (c := '\r') (by decide) rfl rfl
    · exact h.notMem_encode (c := '\n') (by decide) rfl rfl
    · rw [Text.decode?_eq_some_iff, Text.encode_append]
      rfl
  read settings rest ended hshort hroom := by
    have hread := (h.whole_frame hshort).readRequest hroom rest ended
    rw [bytes_frame, h.request_frame] at hread
    exact hread

end Proper

end ClientRequest

end VolumeStore
