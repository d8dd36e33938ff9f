import VolumeStore.Proofs.Client.Streams
import VolumeStore.Proofs.Server.Refinement

/-!
# The limit for lines

What the reader gives as a line is within the limit, but for one case. The room for a line is the
limit and the two bytes of a line end. At the end of a stream a line may lack its end, and then one
byte too many of it is taken for half of a line end that does not come.
-/

namespace VolumeStore

theorem lineBytes_of_open {n : Nat} {bytes : List UInt8}
    (hopen : isClosed (lineBytes n bytes) = false) (hroom : (lineBytes n bytes).length < n) :
    lineBytes n bytes = bytes ∧ lineFeed ∉ bytes := by
  induction n generalizing bytes with
  | zero => exact absurd hroom (Nat.not_lt_zero _)
  | succ n ih =>
    cases bytes with
    | nil => exact ⟨rfl, List.not_mem_nil⟩
    | cons b bs =>
      by_cases hb : b = lineFeed
      · -- A line feed would close the line.
        rw [lineBytes, if_pos hb, hb] at hopen
        exact absurd hopen (by decide)
      · rw [lineBytes, if_neg hb] at hopen hroom ⊢
        have hopen' : isClosed (lineBytes n bs) = false := by
          unfold isClosed at hopen ⊢
          cases hbs : lineBytes n bs with
          | nil => rfl
          | cons c cs =>
            rw [hbs, List.getLast?_cons_cons] at hopen
            exact hopen
        obtain ⟨heq, hnotMem⟩ := ih hopen' (Nat.lt_of_succ_lt_succ hroom)
        rw [heq]
        exact ⟨rfl, fun hmem => (List.mem_cons.1 hmem).elim (fun h => hb h.symm) hnotMem⟩

namespace Incoming

variable {s rest : Incoming} {limit : UInt64} {line : String}

/-! ## What is given as a line -/

/-- A line was taken as a whole. It is closed, and without its end it is within the limit; or it is
open, and there was room for more of it. -/
theorem readLine_eq_line (h : s.readLine limit = .ok (.line line, rest)) :
    ∃ bytes, s.takeLine (lineRoom limit) = .ok (bytes, rest) ∧ bytes ≠ [] ∧
      Text.decode? bytes = some line ∧
      (isClosed bytes = true ∧ Text.byteLength (Text.trimLineEnd line.toList) ≤ limit.toNat ∨
        isClosed bytes = false ∧ bytes.length ≠ lineRoom limit) := by
  -- Of all that can become of a line, two ways end in taking it.
  unfold readLine at h
  simp only [bind, Except.bind] at h
  split at h
  · cases h
  next taken htake =>
    obtain ⟨bytes, rest'⟩ := taken
    dsimp only at h
    split at h
    · cases h
    next hne =>
      split at h
      · cases h
      next text hdecode =>
        split at h
        next hclosed =>
          split at h
          next hshort =>
            cases h
            exact ⟨bytes, htake, hne, hdecode, .inl ⟨hclosed, hshort⟩⟩
          · split at h <;> cases h
        next hopen =>
          split at h
          · split at h
            · cases h
            · split at h <;> cases h
          next hroom =>
            cases h
            exact ⟨bytes, htake, hne, hdecode, .inr ⟨Bool.eq_false_iff.2 hopen, hroom⟩⟩

theorem eq_lineBytes_of_takeLine {n : Nat} {bytes : List UInt8}
    (h : s.takeLine n = .ok (bytes, rest)) : bytes = lineBytes n s.bytes := by
  unfold takeLine at h
  dsimp only at h
  split at h
  · cases h
    rfl
  · cases h

theorem takeLine_open {n : Nat} {bytes : List UInt8} (h : s.takeLine n = .ok (bytes, rest))
    (hopen : isClosed bytes = false) (hroom : bytes.length ≠ n) :
    s = ⟨bytes, true⟩ ∧ lineFeed ∉ bytes ∧ bytes.length < n := by
  obtain rfl := eq_lineBytes_of_takeLine h
  have hlt : (lineBytes n s.bytes).length < n :=
    Nat.lt_of_le_of_ne (length_lineBytes_le n s.bytes) hroom
  obtain ⟨heq, hnotMem⟩ := lineBytes_of_open hopen hlt
  have hended : s.ended = true := by
    -- Neither a line feed nor the room has cut the line off.
    unfold takeLine at h
    dsimp only at h
    split at h
    next hcond => simpa [hopen, hroom] using hcond
    · cases h
  rw [heq] at hlt ⊢
  exact ⟨congrArg (Incoming.mk s.bytes) hended, hnotMem, hlt⟩

/-! ## Lines beyond the limit -/

/-- Whatever the reader gives as a line is within the limit, its end not counted. -/
def KeepsLineLimit (limit : UInt64) (s : Incoming) : Prop :=
  ∀ line rest, s.readLine limit = .ok (.line line, rest) →
    Text.byteLength (Text.trimLineEnd line.toList) ≤ limit.toNat

/-- All that is left of the stream is one line without its end, and it is longer than allowed by one
byte. -/
def EndsOneOver (limit : UInt64) (s : Incoming) : Prop :=
  limit.toNat + 2 < UInt64.size ∧ ∃ line : String, Text.OneLine line ∧
    Text.byteLength line.toList = limit.toNat + 1 ∧ s = ⟨Text.encode line, true⟩

theorem readLine_last (hone : '\n' ∉ line.toList) (hne : line ≠ "")
    (hroom : Text.byteLength line.toList < lineRoom limit) :
    readLine ⟨Text.encode line, true⟩ limit = .ok (.line line, ⟨[], true⟩) := by
  have hfeed : lineFeed ∉ Text.encode line := lineFeed_mem_encode_iff.not.2 hone
  have hlength : (Text.encode line).length < lineRoom limit := by
    rw [Text.length_encode]
    exact hroom
  have hopen : isClosed (Text.encode line) = false := by
    rw [isClosed, beq_eq_false_iff_ne]
    exact fun hlast => hfeed (List.mem_of_getLast? hlast)
  have hbytes : Text.encode line ≠ [] := fun hnil => hne (Text.encode_injective hnil)
  have htake : takeLine ⟨Text.encode line, true⟩ (lineRoom limit) =
      .ok (Text.encode line, ⟨[], true⟩) := by
    unfold takeLine
    dsimp only
    rw [lineBytes_of_notMem hfeed hlength, if_pos (by simp), drop, List.drop_length]
  unfold readLine
  rw [htake]
  simp only [bind, Except.bind, if_neg hbytes, Text.decode?_encode, hopen, Bool.false_eq_true,
    if_false, if_neg (Nat.ne_of_lt hlength)]
  rfl

theorem EndsOneOver.not_keepsLineLimit (h : s.EndsOneOver limit) : ¬ s.KeepsLineLimit limit := by
  obtain ⟨hroom, line, hone, hlength, rfl⟩ := h
  intro hkeeps
  have hne : line ≠ "" := by
    intro hempty
    rw [hempty] at hlength
    exact absurd hlength (Nat.succ_ne_zero _).symm
  have hlt : Text.byteLength line.toList < lineRoom limit := by
    rw [Frame.lineRoom_eq hroom]
    omega
  -- There is no line end to be left out, so all bytes count.
  have hshort := hkeeps line _ (readLine_last hone.1 hne hlt)
  rw [Text.trimLineEnd_eq_self_iff.2 hone.endsOpen] at hshort
  omega

theorem keepsLineLimit_of_not_endsOneOver (h : ¬ s.EndsOneOver limit) :
    s.KeepsLineLimit limit := by
  intro line rest hread
  obtain ⟨bytes, htake, hne, hdecode, hwhole⟩ := readLine_eq_line hread
  obtain ⟨-, hshort⟩ | ⟨hopen, hroom⟩ := hwhole
  · exact hshort
  -- The line is open. If it is too long, it is by one byte, and has no part of a line end.
  obtain ⟨hs, hfeed, hlt⟩ := takeLine_open htake hopen hroom
  obtain rfl := Text.eq_encode_of_decode? hdecode
  apply Nat.le_of_not_lt
  intro hlong
  have hprefix : Text.trimLineEnd line.toList <+: line.toList := Text.dropTrailing_isPrefix _ _
  have hle := Text.byteLength_le_of_isPrefix hprefix
  rw [Text.length_encode] at hlt
  have hsize : limit.toNat + 2 < UInt64.size := by
    apply Nat.lt_of_not_le
    intro hover
    have := lineRoom_of_le hover
    omega
  rw [Frame.lineRoom_eq hsize] at hlt
  obtain ⟨tail, htail⟩ := hprefix
  have htailLength := congrArg Text.byteLength htail
  rw [Text.byteLength_append] at htailLength
  have htrim : Text.trimLineEnd line.toList = line.toList := by
    rw [Text.byteLength_eq_zero (show Text.byteLength tail = 0 by omega), List.append_nil] at htail
    exact htail
  have hends : Text.EndsOpen line.toList := Text.trimLineEnd_eq_self_iff.1 htrim
  refine h ⟨hsize, line, ⟨lineFeed_mem_encode_iff.not.1 hfeed, fun hlast => ?_⟩, by omega, hs⟩
  exact absurd (hends _ hlast) (by decide)

/-! ## Lines within the limit -/

/-- Every line within the limit is read with its end, and nothing else is. -/
def ReadsLines (limit : UInt64) : Prop :=
  ∀ (f : Frame) (rest : List UInt8) (ended : Bool), f.Lawful limit →
    readLine ⟨Text.encode (f.line ++ f.lineEnd) ++ rest, ended⟩ limit =
      .ok (.line (f.line ++ f.lineEnd), ⟨rest, ended⟩)

theorem not_readsLines_of_le (h : UInt64.size ≤ limit.toNat + 2) : ¬ ReadsLines limit := by
  intro hreads
  have hlimit : 4 ≤ limit.toNat := by
    unfold UInt64.size at h
    omega
  obtain ⟨bytes, htake, hne, hdecode, -⟩ :=
    readLine_eq_line (hreads noopFrame [] true (noopFrame_whole hlimit).toLawful)
  -- The room takes one byte at most, and the command has more.
  have hshort := length_lineBytes_le (lineRoom limit)
    (Text.encode (noopFrame.line ++ noopFrame.lineEnd) ++ [])
  rw [← eq_lineBytes_of_takeLine htake, Text.eq_encode_of_decode? hdecode, Text.length_encode,
    show Text.byteLength (noopFrame.line ++ noopFrame.lineEnd).toList = 5 by decide] at hshort
  have := lineRoom_of_le h
  omega

/-- The limit for lines, exactly. On a stream, however it ends, the reader gives a line beyond the
limit only if all that is left is one line without its end that is a single byte too long. And
every line within the limit is read, with its end and nothing else, as long as the limit leaves room
for two more bytes below the end of the numbers of 64 bits. -/
theorem line_limit_exact (limit : UInt64) :
    (∀ s : Incoming, s.KeepsLineLimit limit ↔ ¬ s.EndsOneOver limit) ∧
      (ReadsLines limit ↔ limit.toNat + 2 < UInt64.size) := by
  refine ⟨fun s => ⟨fun hkeeps hover => hover.not_keepsLineLimit hkeeps,
    keepsLineLimit_of_not_endsOneOver⟩, fun hreads => ?_, fun hroom f rest ended hf => ?_⟩
  · exact Nat.lt_of_not_le fun hle => not_readsLines_of_le hle hreads
  · exact hf.readLine hroom rest ended

/-- A request of 65 bytes for the state of a file, which the end of the stream cuts off in front of
its line end. -/
def lastOver : String :=
  "STAT /xxxxxxxxxxxxxxxxxxxxxxxxxxxxxxxxxxxxxxxxxxxxxxxxxxxxxxxxxxx"

/-- A line beyond the limit reaches the parser. -/
theorem not_forall_keepsLineLimit :
    ¬ ∀ (limit : UInt64) (s : Incoming), 64 ≤ limit.toNat → s.KeepsLineLimit limit := by
  intro hall
  have hover : EndsOneOver 64 ⟨Text.encode lastOver, true⟩ :=
    ⟨by decide, lastOver, by decide, by decide, rfl⟩
  exact hover.not_keepsLineLimit (hall 64 _ (by decide))

end Incoming

end VolumeStore
