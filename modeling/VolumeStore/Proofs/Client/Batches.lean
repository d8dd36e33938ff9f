import VolumeStore.Proofs.Client.AppendRequests
import VolumeStore.Proofs.Client.Streams

/-!
# Batches

What becomes of a client and of its connection when it sends requests in order, said of the bytes
that arrive for each of them. There are three outcomes of one request: a positive response, a
refusal, or bytes that are no response. A batch goes on only after the first; after a refusal the
connection stands right behind the reply, and without a response there is no connection any more.
-/

namespace VolumeStore

namespace Client

variable {σ : Type}

def arrivals (n : Network σ) (r : ClientRequest) (o : Online σ) (c : ClientLine) : Incoming :=
  c.incoming.append (n.send o.network c.line r.toBytes).1

def abandoned (n : Network σ) (r : ClientRequest) (o : Online σ) (c : ClientLine) : Online σ :=
  drop n
    { client := { o.client with requestsSent := o.client.requestsSent + 1 }
      network := (n.send o.network c.line r.toBytes).2 } c

/-- One after the other the requests are sent on the connection and answered by these positive
responses, from the one state to the other. -/
inductive Answered (n : Network σ) : Online σ → List ClientRequest → List Response → Online σ → Prop
  | nil (o : Online σ) : Answered n o [] [] o
  | cons {o o' : Online σ} {c : ClientLine} {r : ClientRequest} {requests : List ClientRequest}
    {response : Response} {responses : List Response} {rest : Incoming}
    (hconnection : o.client.connection = some c)
    (hahead : Response.Ahead r.command (arrivals n r o c) response rest)
    (hpositive : response.reply.isPositive = true)
    (hmore : Answered n (answered n r o c rest) requests responses o') :
    Answered n o (r :: requests) (response :: responses) o'

/-- The requests in front of the one with the index `i`, which is `r`, are answered, and then it is
the turn of `r` on the connection `c`. -/
structure Reaches (n : Network σ) (o : Online σ) (requests : List ClientRequest) (i : Nat)
    (r : ClientRequest) (o₁ : Online σ) (c : ClientLine) : Prop where
  request : requests[i]? = some r
  answered : ∃ responses, Answered n o (requests.take i) responses o₁
  connection : o₁.client.connection = some c

/-- Between two states of a client exactly these requests were sent, in order, and counted. -/
structure Counted (o : Online (σ × List (List UInt8))) (requests : List ClientRequest)
    (o' : Online (σ × List (List UInt8))) : Prop where
  record : o'.network.2 = o.network.2 ++ requests.map ClientRequest.toBytes
  count : o'.client.requestsSent = o.client.requestsSent + requests.length

/-! ## One request -/

section

variable {n : Network σ} {o o' o₁ : Online σ} {r : ClientRequest} {c : ClientLine}
  {requests more : List ClientRequest} {responses : List Response}

theorem exchange_of_closed (h : o.client.connection = none) (r : ClientRequest) :
    exchange n r o = (.error .closed, o) := by
  unfold exchange
  rw [h]

theorem exchange_of_answered {response : Response} {rest : Incoming}
    (hconnection : o.client.connection = some c)
    (hahead : Response.Ahead r.command (arrivals n r o c) response rest)
    (hpositive : response.reply.isPositive = true) :
    exchange n r o = (.ok response, answered n r o c rest) :=
  exchange_of_positive hconnection (Response.read_eq_ok_iff.2 hahead) hpositive

theorem exchange_of_refused {reply : Reply} {rest : Incoming}
    (hconnection : o.client.connection = some c) (hreply : (arrivals n r o c).ReplyAhead reply rest)
    (hnegative : reply.isPositive = false) :
    exchange n r o = (.error reply.refusalError, answered n r o c rest) :=
  exchange_of_negative hconnection
    (Response.read_eq_ok_iff.2
      (.plain hreply (Reply.not_isFollowed_of_negative hnegative r.command))) hnegative

theorem exchange_of_unread (hconnection : o.client.connection = some c)
    (hnone : ¬ ∃ response rest, Response.Ahead r.command (arrivals n r o c) response rest) :
    ∃ error, exchange n r o = (.error error, abandoned n r o c) := by
  obtain ⟨error, hread⟩ := Response.exists_read_eq_error hnone
  refine ⟨error.clientError (.reply r.command.verb.token), ?_⟩
  unfold arrivals at hread
  unfold exchange
  rw [hconnection]
  dsimp only
  rw [hread]
  rfl

theorem exchange_cases (n : Network σ) (r : ClientRequest)
    (hconnection : o.client.connection = some c) :
    (∃ response rest, Response.Ahead r.command (arrivals n r o c) response rest ∧
      response.reply.isPositive = true ∧
      exchange n r o = (.ok response, answered n r o c rest)) ∨
    (∃ reply rest, (arrivals n r o c).ReplyAhead reply rest ∧ reply.isPositive = false ∧
      exchange n r o = (.error reply.refusalError, answered n r o c rest)) ∨
    ((¬ ∃ response rest, Response.Ahead r.command (arrivals n r o c) response rest) ∧
      ∃ error, exchange n r o = (.error error, abandoned n r o c)) := by
  by_cases hsome : ∃ response rest, Response.Ahead r.command (arrivals n r o c) response rest
  · obtain ⟨response, rest, hahead⟩ := hsome
    cases hsign : response.reply.isPositive with
    | true =>
      exact .inl ⟨response, rest, hahead, hsign, exchange_of_answered hconnection hahead hsign⟩
    | false =>
      obtain ⟨hreply, -⟩ := (Response.ahead_negative_iff hsign).1 hahead
      exact .inr (.inl ⟨response.reply, rest, hreply, hsign,
        exchange_of_refused hconnection hreply hsign⟩)
  · exact .inr (.inr ⟨hsome, exchange_of_unread hconnection hsome⟩)

theorem answered_of_exchange_eq_ok {response : Response}
    (h : exchange n r o = (.ok response, o')) : Answered n o [r] [response] o' := by
  cases hconnection : o.client.connection with
  | none =>
    rw [exchange_of_closed hconnection] at h
    cases h
  | some c =>
    obtain ⟨response', rest, hahead, hpositive, heq⟩ | ⟨_, _, -, -, heq⟩ | ⟨-, _, heq⟩ :=
      exchange_cases n r hconnection
    · rw [heq] at h
      cases h
      exact .cons hconnection hahead hpositive (.nil _)
    · rw [heq] at h
      cases h
    · rw [heq] at h
      cases h

/-! ## Answered requests -/

namespace Answered

theorem append {others : List Response} (h : Answered n o requests responses o₁)
    (hmore : Answered n o₁ more others o') :
    Answered n o (requests ++ more) (responses ++ others) o' := by
  induction h with
  | nil => exact hmore
  | cons hconnection hahead hpositive _ ih => exact .cons hconnection hahead hpositive (ih hmore)

theorem connection (h : Answered n o requests responses o')
    (hconnection : o.client.connection = some c) :
    ∃ incoming, o'.client.connection = some ⟨c.line, incoming⟩ := by
  induction h generalizing c with
  | nil => exact ⟨c.incoming, hconnection⟩
  | cons hfirst _ _ _ ih =>
    rw [hfirst] at hconnection
    cases hconnection
    obtain ⟨incoming, hlast⟩ := ih rfl
    exact ⟨incoming, hlast⟩

theorem batch_eq (h : Answered n o requests responses o') :
    batch n requests o = (.ok responses, o') := by
  induction h with
  | nil => rfl
  | cons hconnection hahead hpositive _ ih =>
    unfold batch
    rw [exchange_of_answered hconnection hahead hpositive]
    dsimp only
    rw [ih]

theorem batch_eq_error (h : Answered n o requests responses o₁) {error : ClientError}
    (hexchange : exchange n r o₁ = (.error error, o')) (more : List ClientRequest) :
    batch n (requests ++ r :: more) o = (.error error, o') := by
  induction h with
  | nil =>
    rw [List.nil_append, batch, hexchange]
  | cons hconnection hahead hpositive _ ih =>
    rw [List.cons_append, batch, exchange_of_answered hconnection hahead hpositive]
    dsimp only
    rw [ih hexchange]

end Answered

theorem exists_answered_or_reaches (n : Network σ) (hconnection : o.client.connection = some c)
    (requests : List ClientRequest) :
    (∃ responses o', Answered n o requests responses o') ∨
    ∃ i r o₁ c₁, Reaches n o requests i r o₁ c₁ ∧
      ((∃ reply rest, (arrivals n r o₁ c₁).ReplyAhead reply rest ∧ reply.isPositive = false) ∨
        ¬ ∃ response rest, Response.Ahead r.command (arrivals n r o₁ c₁) response rest) := by
  induction requests generalizing o c with
  | nil => exact .inl ⟨[], o, .nil o⟩
  | cons r requests ih =>
    -- The others have their turn behind a positive response only, and the connection is kept there.
    have hhere : Reaches n o (r :: requests) 0 r o c := ⟨rfl, ⟨[], .nil o⟩, hconnection⟩
    obtain ⟨response, rest, hahead, hpositive, -⟩ | ⟨reply, rest, hreply, hnegative, -⟩ |
      ⟨hnone, -⟩ := exchange_cases n r hconnection
    · have hnext : (Client.answered n r o c rest).client.connection = some ⟨c.line, rest⟩ := rfl
      obtain ⟨responses, o', hall⟩ |
        ⟨i, r', o₁, c₁, ⟨hrequest, ⟨responses, hsome⟩, hfound⟩, hfails⟩ := ih hnext
      · exact .inl ⟨_, _, .cons hconnection hahead hpositive hall⟩
      · exact .inr ⟨i + 1, r', o₁, c₁,
          ⟨hrequest, ⟨_, .cons hconnection hahead hpositive hsome⟩, hfound⟩, hfails⟩
    · exact .inr ⟨0, r, o, c, hhere, .inl ⟨reply, rest, hreply, hnegative⟩⟩
    · exact .inr ⟨0, r, o, c, hhere, .inr hnone⟩

theorem Reaches.eq_append {i : Nat} (h : Reaches n o requests i r o₁ c) :
    requests = requests.take i ++ r :: requests.drop (i + 1) := by
  obtain ⟨hi, hget⟩ := List.getElem?_eq_some_iff.1 h.request
  rw [← hget, ← List.drop_eq_getElem_cons hi, List.take_append_drop]

theorem Reaches.take_succ {i : Nat} (h : Reaches n o requests i r o₁ c) :
    requests.take (i + 1) = requests.take i ++ [r] := by
  rw [List.take_add_one, h.request, Option.toList_some]

theorem Reaches.batch_eq_error {i : Nat} (h : Reaches n o requests i r o₁ c) {error : ClientError}
    (hexchange : exchange n r o₁ = (.error error, o')) :
    batch n requests o = (.error error, o') := by
  obtain ⟨responses, hanswered⟩ := h.answered
  rw [h.eq_append]
  exact hanswered.batch_eq_error hexchange _

end

/-! ## What was sent -/

section

variable {n : Network σ} {o o' o₁ : Online (σ × List (List UInt8))} {r : ClientRequest}
  {c : ClientLine} {requests more : List ClientRequest} {responses : List Response}

namespace Counted

theorem refl (o : Online (σ × List (List UInt8))) : Counted o [] o :=
  ⟨(List.append_nil _).symm, rfl⟩

theorem trans (h : Counted o requests o₁) (hmore : Counted o₁ more o') :
    Counted o (requests ++ more) o' where
  record := by rw [hmore.record, h.record, List.map_append, List.append_assoc]
  count := by rw [hmore.count, h.count, List.length_append, Nat.add_assoc]

theorem answered (n : Network σ) (r : ClientRequest) (o : Online (σ × List (List UInt8)))
    (c : ClientLine) (rest : Incoming) : Counted o [r] (answered n.recording r o c rest) :=
  ⟨rfl, rfl⟩

theorem abandoned (n : Network σ) (r : ClientRequest) (o : Online (σ × List (List UInt8)))
    (c : ClientLine) : Counted o [r] (abandoned n.recording r o c) :=
  ⟨rfl, rfl⟩

end Counted

theorem counted_exchange (n : Network σ) (hconnection : o.client.connection = some c)
    (r : ClientRequest) : Counted o [r] (exchange n.recording r o).2 := by
  obtain ⟨_, rest, -, -, heq⟩ | ⟨_, rest, -, -, heq⟩ | ⟨-, _, heq⟩ :=
    exchange_cases n.recording r hconnection
  · exact heq ▸ .answered n r o c rest
  · exact heq ▸ .answered n r o c rest
  · exact heq ▸ .abandoned n r o c

theorem Answered.counted (h : Answered n.recording o requests responses o') :
    Counted o requests o' := by
  induction h with
  | nil o => exact .refl o
  | cons _ _ _ _ ih => exact (Counted.answered n _ _ _ _).trans ih

theorem Reaches.counted {i : Nat} (h : Reaches n.recording o requests i r o₁ c)
    (hlast : Counted o₁ [r] o') : Counted o (requests.take (i + 1)) o' := by
  obtain ⟨responses, hanswered⟩ := h.answered
  rw [h.take_succ]
  exact hanswered.counted.trans hlast

theorem exists_counted_batch (n : Network σ) (hconnection : o.client.connection = some c)
    (r : ClientRequest) (requests : List ClientRequest) :
    ∃ sent, r :: sent <+: r :: requests ∧
      Counted o (r :: sent) (batch n.recording (r :: requests) o).2 := by
  -- All requests are answered, or one is the first that fails, and that one was sent too.
  obtain ⟨responses, o', hall⟩ | ⟨i, r', o₁, c₁, hreaches, hfails⟩ :=
    exists_answered_or_reaches n.recording hconnection (r :: requests)
  · rw [hall.batch_eq]
    exact ⟨requests, List.prefix_rfl, hall.counted⟩
  · obtain ⟨error, o', hexchange⟩ :
        ∃ error o', exchange n.recording r' o₁ = (.error error, o') := by
      obtain ⟨reply, rest, hreply, hnegative⟩ | hnone := hfails
      · exact ⟨_, _, exchange_of_refused hreaches.connection hreply hnegative⟩
      · obtain ⟨error, hexchange⟩ := exchange_of_unread hreaches.connection hnone
        exact ⟨error, _, hexchange⟩
    have hlast := counted_exchange n hreaches.connection r'
    rw [hexchange] at hlast
    have hcounted := hreaches.counted hlast
    rw [List.take_succ_cons] at hcounted
    rw [hreaches.batch_eq_error hexchange]
    exact ⟨requests.take i, List.cons_prefix_cons.2 ⟨rfl, List.take_prefix i requests⟩, hcounted⟩

end

end Client

end VolumeStore
