import VolumeStore.Proofs.Client.Linked

/-!
# The requests of an append

Data that is appended is cut into pieces, each with a request of its own: as few as the limit of the
client allows, and one for no data at all.
-/

namespace VolumeStore

open Client

/-! ## The requests -/

def ClientRequest.appending (path : String) (piece : List UInt8) : ClientRequest where
  command := .append (UInt64.ofNat piece.length) path
  payload := piece

def Client.appendPieces (limit : Nat) (data : List UInt8) : List (List UInt8) :=
  if data = [] then [[]] else chunks limit data

/-- The requests append some data to a path, split as evenly as the limit allows: as few as there
can be, each with the length of its payload. -/
structure Client.Splits (limit : Nat) (path : String) (data : List UInt8)
    (requests : List ClientRequest) : Prop where
  count : requests.length = max 1 ((data.length + limit - 1) / limit)
  announced : ∀ r ∈ requests, ∃ len, r.command = .append len path ∧
    len.toNat = r.payload.length ∧ r.payload.length ≤ limit
  payloads : (requests.map (·.payload)).flatten = data

namespace Client

variable {limit : UInt64} {path : String} {data : List UInt8}

theorem appendRequests_eq (limit : Nat) (path : String) (data : List UInt8) :
    appendRequests limit path data = (appendPieces limit data).map (.appending path) := by
  unfold appendRequests appendPieces
  split
  · rfl
  · rfl

theorem flatten_appendPieces {limit : Nat} (hlimit : 0 < limit) (data : List UInt8) :
    (appendPieces limit data).flatten = data := by
  unfold appendPieces
  split
  next hnil => rw [hnil, List.flatten_singleton]
  · exact flatten_chunks hlimit data

theorem appendPieces_ne_nil {limit : Nat} (hlimit : 0 < limit) (data : List UInt8) :
    appendPieces limit data ≠ [] := by
  intro hnil
  have hdata := flatten_appendPieces hlimit data
  rw [hnil, List.flatten_nil] at hdata
  subst hdata
  cases hnil

theorem length_of_mem_appendPieces {piece : List UInt8}
    (h : piece ∈ appendPieces limit.toNat data) :
    (UInt64.ofNat piece.length).toNat = piece.length ∧ piece.length ≤ limit.toNat := by
  unfold appendPieces at h
  split at h
  · rw [List.mem_singleton.1 h]
    exact ⟨rfl, Nat.zero_le _⟩
  · exact ⟨toNat_ofNat_length_chunk limit.toNat_lt h, length_le_of_mem_chunks h⟩

theorem splits_appendRequests (hlimit : 1 ≤ limit) (path : String) (data : List UInt8) :
    Splits limit.toNat path data (appendRequests limit.toNat path data) := by
  have hpos : 0 < limit.toNat := UInt64.le_iff_toNat_le.1 hlimit
  rw [appendRequests_eq]
  refine ⟨?_, fun r hr => ?_, ?_⟩
  · rw [List.length_map]
    unfold appendPieces
    split
    next hnil =>
      rw [hnil, List.length_nil, Nat.div_eq_of_lt (by omega)]
      rfl
    next hne =>
      have hdata : 0 < data.length := List.length_pos_iff.2 hne
      have hsome : 0 < (data.length + limit.toNat - 1) / limit.toNat :=
        Nat.div_pos (by omega) hpos
      rw [length_chunks hpos, Nat.max_eq_right hsome]
  · obtain ⟨piece, hpiece, rfl⟩ := List.mem_map.1 hr
    obtain ⟨hlen, hle⟩ := length_of_mem_appendPieces hpiece
    exact ⟨_, rfl, hlen, hle⟩
  · rw [List.map_map]
    show ((appendPieces limit.toNat data).map id).flatten = data
    rw [List.map_id, flatten_appendPieces hpos]

theorem byteLength_toLine_append (len : UInt64) (path : String) :
    Text.byteLength (Command.append len path).toLine.toList =
      6 + Text.byteLength (Command.numberField len).toList + Text.byteLength path.toList := by
  have hverb : Text.byteLength (Command.append len path).verb.token.toList = 4 := by
    show Text.byteLength Verb.append.token.toList = 4
    decide
  have hspace : ' '.utf8Size = 1 := by decide
  rw [Command.byteLength_toLine rfl, hverb, Command.fields_two rfl, Text.byteLength_append,
    Text.byteLength_cons, hspace]
  omega

/-! ## What is sent -/

variable {σ : Type} {n : Network σ} {o o' : Online σ}

theorem exchange_recording {r : ClientRequest} {response : Response}
    (hok : exchange n r o = (.ok response, o')) (sent : List (List UInt8)) :
    exchange n.recording r ⟨o.client, (o.network, sent)⟩ =
      (.ok response, ⟨o'.client, (o'.network, sent ++ [r.toBytes])⟩) := by
  unfold exchange at hok ⊢
  split at hok
  · cases hok
  next connection hconnection =>
    dsimp only [Network.recording] at hok ⊢
    rw [hconnection]
    dsimp only
    split at hok
    · cases hok
    next response' rest hread =>
      by_cases hpositive : response'.reply.isPositive = true
      · rw [if_pos hpositive] at hok ⊢
        cases hok
        rfl
      · rw [if_neg hpositive] at hok
        cases hok

theorem batch_recording {requests : List ClientRequest} {responses : List Response}
    (hok : batch n requests o = (.ok responses, o')) (sent : List (List UInt8)) :
    batch n.recording requests ⟨o.client, (o.network, sent)⟩ =
      (.ok responses, ⟨o'.client, (o'.network, sent ++ requests.map ClientRequest.toBytes)⟩) := by
  induction requests generalizing o sent responses with
  | nil =>
    cases hok
    rw [List.map_nil, List.append_nil]
    rfl
  | cons r requests ih =>
    obtain ⟨response, rest, o₁, rfl, hexchange, hbatch⟩ := batch_cons_eq_ok hok
    unfold batch
    rw [exchange_recording hexchange sent]
    dsimp only
    rw [ih hbatch, List.append_assoc]
    rfl

theorem withPath_of_ok {α : Type} {next : String → Call σ α} {written : String}
    (h : VolumePath.normalize written = .ok path) (o : Online σ) :
    withPath written next o = next path o := by
  unfold withPath
  rw [h]

theorem appendFile_eq {p : VolumePath} (n : Network σ) (hparse : VolumePath.parse path = .ok p)
    (data : List UInt8) (o : Online σ) :
    appendFile n path data o =
      andThen (batch n (appendRequests o.client.settings.maxPayload.toNat p.render data))
        (fun _ => .ok ()) o :=
  withPath_of_ok (VolumePath.normalize_of_parse hparse) o

theorem andThen_of_ok {α β : Type} {call : Call σ α} {next : α → Except ClientError β} {a : α}
    (h : call o = (.ok a, o')) : andThen call next o = (next a, o') := by
  unfold andThen
  rw [h]

end Client

end VolumeStore
