import VolumeStore.Proofs.Client.Batches

/-!
# Reads in pieces

How far a read goes when nothing is known about the other end. The requests follow one plan that
depends on the range and on the limit of the client only; what arrives decides how many of them are
sent. Every answer but the last has exactly the bytes that were asked for, and the last one no more,
so the read never gets past its range.
-/

namespace VolumeStore

open Client

/-- The request for one piece of a range: as many bytes as the limit allows, or what is left. -/
def ClientRequest.reading (fd offset : UInt64) (limit len piece : Nat) : ClientRequest where
  command := .read fd (offset + UInt64.ofNat (piece * limit))
    (UInt64.ofNat (min limit (len - piece * limit)))

namespace Client

variable {σ : Type}

def readings (fd offset : UInt64) (limit len count : Nat) : List ClientRequest :=
  (List.range count).map (.reading fd offset limit len)

/-- Every answer has as many bytes as the piece of the range that was asked for. -/
def FillPieces (limit len : Nat) (answers : List Response) : Prop :=
  ∀ piece answer, answers[piece]? = some answer →
    answer.data.length = min limit (len - piece * limit)

/-- The first pieces of a range were asked for, one after the other, as long as something was left;
and each was answered with all of its bytes. -/
structure Filled (n : Network σ) (o : Online σ) (fd offset : UInt64) (limit len : Nat)
    (answers : List Response) (o' : Online σ) : Prop where
  answered : Answered n o (readings fd offset limit len answers.length) answers o'
  asked : ∀ piece < answers.length, piece * limit < len
  fill : FillPieces limit len answers

/-- How a read in pieces ends: with the whole range, with the first answer that is short, or with
the first request that fails. -/
inductive ReadEnds (n : Network σ) (o : Online σ) (fd offset : UInt64) (limit len : Nat) :
    Except ClientError (List UInt8) × Online σ → Prop
  | complete {answers : List Response} {o' : Online σ}
    (h : Filled n o fd offset limit len answers o') (hall : len ≤ answers.length * limit) :
    ReadEnds n o fd offset limit len (.ok (answers.flatMap (·.data)), o')
  | short {answers : List Response} {last : Response} {o₁ o' : Online σ}
    (h : Filled n o fd offset limit len answers o₁) (hmore : answers.length * limit < len)
    (hlast : Answered n o₁ [.reading fd offset limit len answers.length] [last] o')
    (hshort : last.data.length < min limit (len - answers.length * limit)) :
    ReadEnds n o fd offset limit len (.ok ((answers ++ [last]).flatMap (·.data)), o')
  | failed {answers : List Response} {error : ClientError} {o₁ o' : Online σ}
    (h : Filled n o fd offset limit len answers o₁) (hmore : answers.length * limit < len)
    (hfails : exchange n (.reading fd offset limit len answers.length) o₁ = (.error error, o')) :
    ReadEnds n o fd offset limit len (.error error, o')

/-! ## The plan -/

section

variable {fd offset : UInt64} {limit len : Nat}

theorem reading_zero (fd offset : UInt64) (limit len : Nat) :
    ClientRequest.reading fd offset limit len 0 =
      { command := .read fd offset (UInt64.ofNat (min len limit)) } := by
  unfold ClientRequest.reading
  rw [Nat.zero_mul, Nat.sub_zero, Nat.min_comm]
  exact congrArg (fun start => ClientRequest.mk (.read fd start _) []) (UInt64.add_zero offset)

theorem reading_succ (fd offset : UInt64) (limit len piece : Nat) :
    ClientRequest.reading fd offset limit len (piece + 1) =
      .reading fd (offset + UInt64.ofNat limit) limit (len - limit) piece := by
  have hmul : (piece + 1) * limit = limit + piece * limit := by
    rw [Nat.add_one_mul, Nat.add_comm]
  unfold ClientRequest.reading
  rw [hmul, UInt64.ofNat_add, UInt64.add_assoc, Nat.sub_sub]

theorem readings_succ (fd offset : UInt64) (limit len count : Nat) :
    readings fd offset limit len (count + 1) =
      readings fd offset limit len count ++ [.reading fd offset limit len count] := by
  unfold readings
  rw [List.range_succ, List.map_append, List.map_singleton]

theorem readings_succ' (fd offset : UInt64) (limit len count : Nat) :
    readings fd offset limit len (count + 1) = .reading fd offset limit len 0 ::
      readings fd (offset + UInt64.ofNat limit) limit (len - limit) count := by
  unfold readings
  rw [List.range_succ_eq_map, List.map_cons, List.map_map]
  exact congrArg _ (List.map_congr_left fun piece _ => reading_succ fd offset limit len piece)

theorem succ_le_of_piece {piece : Nat} (hlimit : 0 < limit) (h : piece * limit < len) :
    piece + 1 ≤ (len + limit - 1) / limit := by
  rw [Nat.le_div_iff_mul_le hlimit, Nat.add_one_mul]
  omega

theorem exists_reading_eq {piece : Nat} (hroom : offset.toNat + len < UInt64.size)
    (h : piece * limit < len) :
    ∃ start amount, ClientRequest.reading fd offset limit len piece =
        { command := .read fd start amount } ∧
      start.toNat = offset.toNat + piece * limit ∧
      amount.toNat = min limit (len - piece * limit) := by
  refine ⟨_, _, rfl, ?_, UInt64.toNat_ofNat_of_lt' (by omega)⟩
  have hstart : offset.toNat + piece * limit < UInt64.size := by omega
  rw [UInt64.toNat_add, UInt64.toNat_ofNat_of_lt' (by omega : piece * limit < UInt64.size)]
  exact Nat.mod_eq_of_lt hstart

/-! ## Answers that fill their pieces -/

variable {answers : List Response} {answer : Response}

theorem fillPieces_cons :
    FillPieces limit len (answer :: answers) ↔
      answer.data.length = min limit len ∧ FillPieces limit (len - limit) answers := by
  have hrest : ∀ piece, len - (piece + 1) * limit = len - limit - piece * limit := by
    intro piece
    rw [Nat.add_one_mul, Nat.add_comm, Nat.sub_sub]
  constructor
  · intro h
    refine ⟨?_, fun piece other hother => ?_⟩
    · have hfirst := h 0 answer rfl
      rwa [Nat.zero_mul, Nat.sub_zero] at hfirst
    · rw [h (piece + 1) other hother, hrest]
  · rintro ⟨hfirst, hmore⟩ piece other hother
    cases piece with
    | zero =>
      cases hother
      rwa [Nat.zero_mul, Nat.sub_zero]
    | succ piece => rw [hmore piece other hother, hrest]

theorem FillPieces.length_flatMap (h : FillPieces limit len answers) :
    (answers.flatMap (·.data)).length = min len (answers.length * limit) := by
  induction answers generalizing len with
  | nil => rw [List.flatMap_nil, List.length_nil, List.length_nil, Nat.zero_mul, Nat.min_zero]
  | cons answer answers ih =>
    obtain ⟨hfirst, hmore⟩ := fillPieces_cons.1 h
    rw [List.flatMap_cons, List.length_append, hfirst, ih hmore, List.length_cons, Nat.add_one_mul]
    omega

end

/-! ## What arrives -/

section

variable {n : Network σ} {o o' o₁ : Online σ} {fd offset : UInt64} {limit len : Nat}
  {answers : List Response} {answer : Response}

theorem length_data_of_answered {piece : Nat} (hlimit : limit < UInt64.size)
    (h : Answered n o [.reading fd offset limit len piece] [answer] o') :
    answer.data.length ≤ min limit (len - piece * limit) := by
  cases h with
  | cons _ hahead =>
    have hle := Response.length_data_of_ahead hahead
    rwa [UInt64.toNat_ofNat_of_lt' (by omega)] at hle

namespace Filled

theorem nil (n : Network σ) (o : Online σ) (fd offset : UInt64) (limit len : Nat) :
    Filled n o fd offset limit len [] o :=
  ⟨.nil o, nofun, nofun⟩

theorem cons (hsome : 0 < len)
    (hfirst : Answered n o [.reading fd offset limit len 0] [answer] o₁)
    (hfill : answer.data.length = min limit len)
    (h : Filled n o₁ fd (offset + UInt64.ofNat limit) limit (len - limit) answers o') :
    Filled n o fd offset limit len (answer :: answers) o' where
  answered := by
    rw [List.length_cons, readings_succ']
    exact hfirst.append h.answered
  asked piece hpiece := by
    cases piece with
    | zero => rwa [Nat.zero_mul]
    | succ piece =>
      have hasked := h.asked piece (Nat.lt_of_succ_lt_succ hpiece)
      rw [Nat.add_one_mul]
      omega
  fill := fillPieces_cons.2 ⟨hfill, h.fill⟩

theorem length_le (h : Filled n o fd offset limit len answers o') (hlimit : 0 < limit) :
    answers.length ≤ (len + limit - 1) / limit := by
  cases hlength : answers.length with
  | zero => exact Nat.zero_le _
  | succ piece => exact succ_le_of_piece hlimit (h.asked piece (by omega))

end Filled

theorem ReadEnds.cons {result : Except ClientError (List UInt8) × Online σ} (hsome : 0 < len)
    (hfirst : Answered n o [.reading fd offset limit len 0] [answer] o₁)
    (hfill : answer.data.length = min limit len)
    (h : ReadEnds n o₁ fd (offset + UInt64.ofNat limit) limit (len - limit) result) :
    ReadEnds n o fd offset limit len (result.1.map (answer.data ++ ·), result.2) := by
  have hmul : ∀ answers : List Response,
      (answer :: answers).length * limit = limit + answers.length * limit := fun answers => by
    rw [List.length_cons, Nat.add_one_mul, Nat.add_comm]
  cases h with
  | complete h hall => exact .complete (h.cons hsome hfirst hfill) (by rw [hmul]; omega)
  | @short answers _ _ _ h hmore hlast hshort =>
    rw [← reading_succ] at hlast
    rw [Nat.sub_sub] at hshort
    exact .short (h.cons hsome hfirst hfill) (by rw [hmul]; omega) hlast (by rwa [hmul])
  | failed h hmore hfails =>
    rw [← reading_succ] at hfails
    exact .failed (h.cons hsome hfirst hfill) (by rw [hmul]; omega) hfails

theorem readChunks_zero (n : Network σ) (file : ClientFile) (limit requests : Nat)
    (offset : UInt64) (o : Online σ) :
    readChunks n file limit requests offset 0 o = (.ok [], o) := by
  cases requests <;> rfl

theorem readEnds_readChunks (n : Network σ) (file : ClientFile) {limit requests len : Nat}
    (hlimit : 0 < limit) (hsize : limit < UInt64.size) (hlen : len ≤ requests) (offset : UInt64)
    (o : Online σ) :
    ReadEnds n o file.fd offset limit len (readChunks n file limit requests offset len o) := by
  -- A filled piece is not empty, so what is left never needs more requests than there are.
  induction requests generalizing offset len o with
  | zero =>
    obtain rfl := Nat.le_zero.1 hlen
    exact .complete (.nil n o file.fd offset limit 0) (Nat.zero_le _)
  | succ requests ih =>
    have hnone := Filled.nil n o file.fd offset limit len
    unfold readChunks
    split
    next hdone =>
      rw [hdone]
      exact .complete (.nil n o file.fd offset limit 0) (Nat.zero_le _)
    next hsome =>
      have hmore : ([] : List Response).length * limit < len := by
        rw [List.length_nil, Nat.zero_mul]
        exact Nat.pos_of_ne_zero hsome
      dsimp only
      rw [← reading_zero]
      split
      next error o₁ hfails => exact .failed hnone hmore hfails
      next answer o₁ hok =>
        have hfirst := answered_of_exchange_eq_ok hok
        have hle := length_data_of_answered hsize hfirst
        rw [Nat.zero_mul, Nat.sub_zero, Nat.min_comm] at hle
        split
        next hshort =>
          have hend := ReadEnds.short hnone hmore hfirst
            (by rwa [List.length_nil, Nat.zero_mul, Nat.sub_zero, Nat.min_comm])
          rwa [List.nil_append, List.flatMap_singleton] at hend
        next hfull =>
          have hfill : answer.data.length = min len limit :=
            Nat.le_antisymm hle (Nat.not_lt.1 hfull)
          have hrest : ReadEnds n o₁ file.fd (offset + UInt64.ofNat limit) limit (len - limit)
              (readChunks n file limit requests (offset + UInt64.ofNat answer.data.length)
                (len - answer.data.length) o₁) := by
            obtain hlast | hle := Nat.lt_or_ge len limit
            · -- Nothing is left, and the offset does not matter any more.
              rw [hfill, Nat.min_eq_left hlast.le, Nat.sub_self, Nat.sub_eq_zero_of_le hlast.le,
                readChunks_zero]
              exact .complete (.nil n o₁ _ _ limit 0) (Nat.zero_le _)
            · rw [hfill, Nat.min_eq_right hle]
              exact ih (by omega) _ _
          have hend := hrest.cons (Nat.pos_of_ne_zero hsome) hfirst (by rw [hfill, Nat.min_comm])
          split
          next hresult =>
            rw [hresult] at hend
            exact hend
          next hresult =>
            rw [hresult] at hend
            exact hend

theorem ReadEnds.length_le {data : List UInt8}
    (h : ReadEnds n o fd offset limit len (.ok data, o')) : data.length ≤ len := by
  cases h with
  | complete h hall => exact h.fill.length_flatMap ▸ Nat.min_le_left _ _
  | short h hmore hlast hshort =>
    rw [List.flatMap_append, List.length_append, h.fill.length_flatMap, List.flatMap_singleton]
    omega

end

theorem ReadEnds.exists_counted {n : Network σ} {o : Online (σ × List (List UInt8))}
    {fd offset : UInt64} {limit len : Nat}
    {result : Except ClientError (List UInt8) × Online (σ × List (List UInt8))}
    (hlimit : 0 < limit) (h : ReadEnds n.recording o fd offset limit len result) :
    ∃ sent ≤ (len + limit - 1) / limit,
      Counted o (readings fd offset limit len sent) result.2 := by
  cases h with
  | complete h => exact ⟨_, h.length_le hlimit, h.answered.counted⟩
  | short h hmore hlast =>
    refine ⟨_, succ_le_of_piece hlimit hmore, ?_⟩
    rw [readings_succ]
    exact h.answered.counted.trans hlast.counted
  | @failed answers error o₁ o' h hmore hfails =>
    cases hconnection : o₁.client.connection with
    | none =>
      -- The request that fails was not sent.
      rw [exchange_of_closed hconnection] at hfails
      cases hfails
      exact ⟨_, h.length_le hlimit, h.answered.counted⟩
    | some c =>
      refine ⟨_, succ_le_of_piece hlimit hmore, ?_⟩
      have hlast := counted_exchange n hconnection
        (.reading fd offset limit len answers.length)
      rw [hfails] at hlast
      rw [readings_succ]
      exact h.answered.counted.trans hlast

end Client

/-! ## Clients that are connected -/

theorem ClientSettings.maxPayload_pos {settings : ClientSettings} (h : settings.fault? = none) :
    0 < settings.maxPayload.toNat := by
  unfold fault? at h
  split at h
  · cases h
  split at h
  · cases h
  split at h
  · cases h
  split at h
  · cases h
  next hsome => exact Nat.pos_of_ne_zero fun hzero => hsome (UInt64.toNat_inj.1 hzero)

namespace Client

variable {σ : Type}

theorem settings_of_connect {n : Network σ} {s s' : σ} {settings : ClientSettings}
    {client : Client} (h : connect n s settings = (.ok client, s')) :
    settings.fault? = none ∧ client.settings = settings := by
  unfold connect at h
  split at h
  · cases h
  next hfault =>
    split at h
    · cases h
    next line arrived s₁ _ =>
      split at h
      · cases h
      next rest _ =>
        -- The mount is the only request, and it leaves the settings as they are.
        have hkept := (keptBy_settings n fun _ => True).exchange
          { command := .mount settings.volume } trivial
          ⟨{ settings := settings, connection := some ⟨line, rest⟩ }, s₁⟩
        dsimp only at h
        split at h
        next hexchange =>
          rw [hexchange] at hkept
          cases h
          exact ⟨hfault, hkept⟩
        · cases h

/-- A read of a client that has connected, whatever it did before and whatever arrives. The limit of
the client is not zero. The requests of the read have the offsets and lengths of the pieces of the
range, as numbers that do not wrap; each is sent only when every one before it was answered with all
the bytes of its piece, so none of the lengths that are left is exceeded. No more requests are sent
than the range has pieces, and they are the first ones, in order. The read ends with the data of all
answers, of which only the last can be short, and never with more than the range; or it fails with
the request that fails. -/
theorem readFrom_within_range (n : Network σ) {s s' : σ × List (List UInt8)}
    {settings : ClientSettings} {client : Client}
    (hconnect : connect n.recording s settings = (.ok client, s')) (calls : List ClientCall)
    (file : ClientFile) (offset len : UInt64)
    (hroom : offset.toNat + len.toNat < UInt64.size) :
    let o := ClientCall.runAll n.recording ⟨client, s'⟩ calls
    let limit := settings.maxPayload.toNat
    let result := readFrom n.recording file offset len o
    0 < limit ∧
    (∀ piece, piece * limit < len.toNat →
      ∃ start amount, ClientRequest.reading file.fd offset limit len.toNat piece =
          { command := .read file.fd start amount } ∧
        start.toNat = offset.toNat + piece * limit ∧
        amount.toNat = min limit (len.toNat - piece * limit)) ∧
    ReadEnds n.recording o file.fd offset limit len.toNat result ∧
    (∃ sent ≤ (len.toNat + limit - 1) / limit,
      Counted o (readings file.fd offset limit len.toNat sent) result.2) ∧
    ∀ data, result.1 = .ok data → data.length ≤ len.toNat := by
  obtain ⟨hfault, hsettings⟩ := settings_of_connect hconnect
  have hlimit := ClientSettings.maxPayload_pos hfault
  intro o limit result
  -- No call changes the settings that the connection was made with.
  have hkept : o.client.settings = settings :=
    (ClientCall.keeps_runAll (keptBy_settings n.recording _) ⟨client, s'⟩ calls).trans hsettings
  have hends : ReadEnds n.recording o file.fd offset limit len.toNat result := by
    show ReadEnds n.recording o file.fd offset limit len.toNat (readChunks n.recording file
      o.client.settings.maxPayload.toNat len.toNat offset len.toNat o)
    rw [hkept]
    exact readEnds_readChunks n.recording file hlimit (UInt64.toNat_lt_size _) le_rfl offset o
  refine ⟨hlimit, fun piece hpiece => exists_reading_eq hroom hpiece, hends,
    hends.exists_counted hlimit, fun data hdata => ?_⟩
  have hok : result = (.ok data, result.2) := Prod.ext hdata rfl
  rw [hok] at hends
  exact hends.length_le

def overstating : ScriptedPeer where
  script := ["220 hi\r\n", "230 ok\r\n", "150 2\r\nab", "150 3\r\nabc"].map fun part =>
    ⟨Text.encode part, false⟩

def pairwise : Client where
  settings := { maxPayload := 2 }
  connection := some ⟨0, {}⟩
  requestsSent := 1

theorem readFrom_within_range_overstating :
    let (connected, s) :=
      connect ScriptedPeer.network.recording (overstating, []) pairwise.settings
    let (result, o) := readFrom ScriptedPeer.network.recording ⟨7, "/f", {}⟩ 10 5 ⟨pairwise, s⟩
    connected = .ok pairwise ∧
      UInt64.toNat 10 + UInt64.toNat 5 < UInt64.size ∧
      result = .error (.wire (.malformedReply "3")) ∧
      ∃ sent ≤ 3, Counted ⟨pairwise, s⟩ (readings 7 10 2 5 sent) o := by
  have hconnect : connect ScriptedPeer.network.recording (overstating, []) pairwise.settings =
      (.ok pairwise,
        (connect ScriptedPeer.network.recording (overstating, []) pairwise.settings).2) := by
    decide +kernel
  have hroom : UInt64.toNat 10 + UInt64.toNat 5 < UInt64.size := by decide
  have hread := readFrom_within_range ScriptedPeer.network hconnect [] ⟨7, "/f", {}⟩ 10 5 hroom
  exact ⟨congrArg Prod.fst hconnect, hroom, by decide +kernel, hread.2.2.2.1⟩

end Client

end VolumeStore
