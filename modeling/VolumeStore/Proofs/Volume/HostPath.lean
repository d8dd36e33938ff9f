import VolumeStore.Proofs.Host.Canonical
import VolumeStore.Proofs.Text.Ascii
import VolumeStore.Proofs.Volume.Written
import VolumeStore.Volume.Confine

/-!
# Paths of a volume on the host

The path of the host for a path of a volume has the names of the volume's directory in front and the
segments of the path behind them, each one the name of an entry. So looking it up is looking up the
segments from the volume's directory.
-/

namespace VolumeStore

open Host (Location Name IsEntryName)

namespace VolumePath

def names (p : VolumePath) : List Name :=
  p.segments.map Text.encode

/-- Every segment can be the name of an entry, and holds no slash. -/
def IsProper (p : VolumePath) : Prop :=
  ∀ name ∈ p.names, IsEntryName name ∧ Host.slash ∉ name

theorem names_ne_nil {p : VolumePath} (hp : p ≠ top) : p.names ≠ [] := by
  intro hnil
  obtain ⟨segments⟩ := p
  obtain rfl : segments = [] := List.map_eq_nil_iff.1 hnil
  exact hp rfl

theorem isEntryName_encode {segment : String} (h₁ : segment ≠ "") (h₂ : segment ≠ ".")
    (h₃ : segment ≠ "..") (h₄ : Text.byteLength segment.toList ≤ maxNameBytes) :
    IsEntryName (Text.encode segment) := by
  refine ⟨fun h => h₁ (Text.encode_injective h), fun h => h₂ (Text.encode_injective ?_),
    fun h => h₃ (Text.encode_injective ?_), ?_⟩
  · rw [h]; decide
  · rw [h]; decide
  · rw [Text.length_encode]; exact h₄

theorem IsSegment.isEntryName {segment : String} (h : IsSegment segment.toList) :
    IsEntryName (Text.encode segment) ∧ Host.slash ∉ Text.encode segment := by
  have htelling := h.telling
  simp only [isTrivialSegment, Bool.or_eq_false_iff, List.isEmpty_eq_false_iff,
    beq_eq_false_iff_ne] at htelling
  refine ⟨isEntryName_encode ?_ ?_ ?_ h.short, fun hslash => ?_⟩
  · rintro rfl
    exact htelling.1 rfl
  · rintro rfl
    exact htelling.2 rfl
  · rintro rfl
    exact h.descending rfl
  · exact h.undivided (Text.mem_toList_of_mem_encode (c := '/') (by decide) (by decide) hslash)

theorem isProper_of_parse {path : String} {p : VolumePath} (h : parse path = .ok p) :
    p.IsProper := by
  intro name hname
  obtain ⟨segment, hmem, rfl⟩ := List.mem_map.1 hname
  exact (isSegment_of_parse h segment hmem).isEntryName

theorem zero_notMem_names {path : String} {p : VolumePath} (h : parse path = .ok p) :
    ∀ name ∈ p.names, 0 ∉ name := by
  intro name hmem hzero
  obtain ⟨segment, hsegment, rfl⟩ := List.mem_map.1 hmem
  have hin := Text.mem_toList_of_mem_encode (c := '\x00') (by decide) (by decide) hzero
  exact absurd ((isSegment_of_parse h segment hsegment).printable _ hin) (by decide)

theorem IsProper.isEntryName {p : VolumePath} (h : p.IsProper) :
    ∀ name ∈ p.names, IsEntryName name :=
  fun name hmem => (h name hmem).1

theorem names_injective {p q : VolumePath} (h : p.names = q.names) : p = q := by
  obtain ⟨segments⟩ := p
  obtain ⟨segments'⟩ := q
  exact congrArg VolumePath.mk
    (List.map_injective_iff.2 (fun _ _ he => Text.encode_injective he) h)

theorem exists_of_names_eq_append {p q : VolumePath} {inner : List Name}
    (h : q.names = p.names ++ inner) :
    ∃ rest, q.segments = p.segments ++ rest ∧ inner = rest.map Text.encode := by
  obtain ⟨above, rest, hseg, habove, hrest⟩ := List.map_eq_append_iff.1 h
  have hsame : mk above = p := names_injective habove
  exact ⟨rest, by rw [hseg, ← hsame], hrest.symm⟩

theorem names_isPrefix_iff {p q : VolumePath} :
    p.names <+: q.names ↔ p.segments <+: q.segments :=
  List.prefix_map_iff_of_injective fun _ _ he => Text.encode_injective he

theorem parent?_eq_some_iff {p above : VolumePath} {last : String} :
    p.parent? = some (above, last) ↔ p.segments = above.segments ++ [last] := by
  unfold parent?
  constructor
  · intro h
    obtain ⟨name, hlast, he⟩ := Option.map_eq_some_iff.1 h
    cases he
    exact (List.dropLast_append_getLast? _ hlast).symm
  · intro h
    rw [h, List.getLast?_concat, List.dropLast_concat]
    rfl

theorem IsWritten.of_isPrefix {p : VolumePath} (h : p.IsWritten) {names : List Name}
    (hp : names <+: p.names) : ∃ q : VolumePath, q.IsWritten ∧ names = q.names := by
  obtain ⟨rest, hrest⟩ := hp
  obtain ⟨above, below, hseg, rfl, -⟩ := List.map_eq_append_iff.1 hrest.symm
  obtain ⟨segments⟩ := p
  obtain rfl : segments = above ++ below := hseg
  exact ⟨⟨above⟩, h.of_append, rfl⟩

/-! ## The bytes of a rendered path -/

theorem flatMap_intercalate {α β : Type} (f : α → List β) (sep : α) (fields : List (List α)) :
    (List.intercalate [sep] fields).flatMap f =
      List.intercalate (f sep) (fields.map fun field => field.flatMap f) := by
  induction fields with
  | nil => rfl
  | cons field fields ih =>
    cases fields with
    | nil => simp
    | cons next fields =>
      rw [List.map_cons, List.map_cons, List.intercalate_cons_cons, List.intercalate_cons_cons,
        List.flatMap_append, List.flatMap_append, ih]
      simp

theorem encode_render (p : VolumePath) :
    Text.encode p.render = Host.slash :: List.intercalate [Host.slash] p.names := by
  rw [render, Text.encode_ofList, List.flatMap_cons, flatMap_intercalate, List.map_map]
  have hslash : String.utf8EncodeChar '/' = [Host.slash] := by decide
  have hnames : (p.segments.map ((fun field => field.flatMap String.utf8EncodeChar) ∘ (·.toList))) =
      p.names := by
    refine List.map_congr_left fun segment _ => ?_
    exact (Text.encode_eq_flatMap segment).symm
  rw [hslash, hnames]
  rfl

theorem exists_intercalate_names {p : VolumePath} (hp : p.IsProper) (hne : p.names ≠ []) :
    ∃ first tail, List.intercalate [Host.slash] p.names = first :: tail ∧ first ≠ Host.slash := by
  obtain ⟨name, names, hnames⟩ := List.exists_cons_of_ne_nil hne
  obtain ⟨hentry, hslash⟩ := hp name (by simp [hnames])
  obtain ⟨first, name, rfl⟩ := List.exists_cons_of_ne_nil hentry.1
  have hfirst : first ≠ Host.slash := fun he => hslash (by simp [he])
  rw [hnames]
  cases names with
  | nil => exact ⟨first, name, by simp, hfirst⟩
  | cons next names =>
    exact ⟨first, _, by rw [List.intercalate_cons_cons, List.cons_append]; rfl, hfirst⟩

theorem below_render (root : Host.Path) {p : VolumePath} (hp : p.IsProper) (hne : p.names ≠ []) :
    root.below p.render = root.join ⟨List.intercalate [Host.slash] p.names⟩ := by
  obtain ⟨first, tail, htail, hfirst⟩ := exists_intercalate_names hp hne
  rw [Host.Path.below, encode_render, htail, Host.Path.dropSlashes,
    List.dropWhile_cons_of_pos (by simp), List.dropWhile_cons_of_neg (by simpa using hfirst)]

theorem split_intercalate_names {p : VolumePath} (hp : p.IsProper) (hne : p.names ≠ []) :
    Host.Path.split (List.intercalate [Host.slash] p.names) = p.names :=
  List.splitOn_intercalate _ (fun name hmem => (hp name hmem).2) hne

theorem isAbsolute_intercalate_names {p : VolumePath} (hp : p.IsProper) (hne : p.names ≠ []) :
    (Host.Path.mk (List.intercalate [Host.slash] p.names)).isAbsolute = false := by
  obtain ⟨first, tail, htail, hfirst⟩ := exists_intercalate_names hp hne
  simpa [Host.Path.isAbsolute, htail] using hfirst

theorem below_render_nil {p : VolumePath} (hp : p.IsProper) (hne : p.names ≠ []) :
    (Host.Path.mk []).below p.render = ⟨List.intercalate [Host.slash] p.names⟩ := by
  rw [below_render _ hp hne, Host.Path.join,
    if_neg (by simp [isAbsolute_intercalate_names hp hne]), if_pos (.inl rfl), List.nil_append]

end VolumePath

/-! ## The names in front -/

namespace Volume

def stem (v : Volume) : List UInt8 :=
  if v.root.bytes.getLast? = some Host.slash then v.root.bytes.dropLast else v.root.bytes

def base (v : Volume) : List Name :=
  Host.Path.split v.stem

def start (v : Volume) (t : Host.Tree) : Location :=
  if v.root.isAbsolute then [] else t.home

variable {v : Volume} {t : Host.Tree} {p : VolumePath} {home : Location} {k : Nat} {follow : Bool}
  {node : Host.Node}

theorem root_bytes_eq (v : Volume) :
    v.root.bytes = v.stem ∨ v.root.bytes = v.stem ++ [Host.slash] := by
  unfold stem
  split
  next h => exact .inr (List.dropLast_append_getLast? _ h).symm
  · exact .inl rfl

theorem split_root_bytes (v : Volume) :
    Host.Path.split v.root.bytes = v.base ∨ Host.Path.split v.root.bytes = v.base ++ [[]] := by
  obtain h | h := v.root_bytes_eq
  · exact .inl (by rw [h]; rfl)
  · refine .inr ?_
    rw [h, Host.Path.split, List.splitOn_append_cons_self, List.splitOn_nil]
    rfl

theorem join_bytes (hroot : v.root.bytes ≠ []) {relative : List UInt8}
    (hrel : relative.head? ≠ some Host.slash) :
    (v.root.join ⟨relative⟩).bytes = v.stem ++ Host.slash :: relative := by
  have habs : (Host.Path.mk relative).isAbsolute = false := by
    simpa [Host.Path.isAbsolute] using hrel
  unfold Host.Path.join stem
  rw [if_neg (by simp [habs])]
  by_cases hlast : v.root.bytes.getLast? = some Host.slash
  · rw [if_pos (.inr hlast), if_pos hlast]
    conv => lhs; rw [← List.dropLast_append_getLast? _ hlast]
    simp
  · rw [if_neg (by simp [hroot, hlast]), if_neg hlast]

theorem hostPath_of_names_eq_nil (h : p.names = []) : v.hostPath p = v.root := by
  rw [hostPath, VolumePath.onHost, Host.Path.below, VolumePath.encode_render, h]
  rfl

theorem hostPath_bytes (hroot : v.root.bytes ≠ []) (hp : p.IsProper) (hne : p.names ≠ []) :
    (v.hostPath p).bytes = v.stem ++ Host.slash :: List.intercalate [Host.slash] p.names := by
  rw [hostPath, VolumePath.onHost, VolumePath.below_render v.root hp hne]
  obtain ⟨first, tail, htail, hfirst⟩ := VolumePath.exists_intercalate_names hp hne
  exact join_bytes hroot (by simpa [htail] using hfirst)

theorem split_hostPath (hroot : v.root.bytes ≠ []) (hp : p.IsProper) (hne : p.names ≠ []) :
    Host.Path.split (v.hostPath p).bytes = v.base ++ p.names := by
  rw [hostPath_bytes hroot hp hne, Host.Path.split, List.splitOn_append_cons_self,
    List.splitOn_intercalate _ (fun name hmem => (hp name hmem).2) hne]
  rfl

theorem isAbsolute_hostPath (hroot : v.root.bytes ≠ []) (hp : p.IsProper) :
    (v.hostPath p).isAbsolute = v.root.isAbsolute := by
  by_cases hne : p.names = []
  · rw [hostPath_of_names_eq_nil hne]
  · unfold Host.Path.isAbsolute
    rw [hostPath_bytes hroot hp hne]
    obtain h | h := v.root_bytes_eq
    · rw [h] at hroot ⊢
      rw [List.head?_append_of_ne_nil _ hroot]
    · rw [h]
      cases v.stem <;> simp

end Volume

end VolumeStore
