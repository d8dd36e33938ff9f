import VolumeStore.Client.Exchange
import VolumeStore.Client.Scripted
import VolumeStore.Proofs.Client.Responses
import VolumeStore.Proofs.Text.Cut

/-!
# Refusals

An error of the store comes to a client as it is: the reply keeps the number and the token of the
error, and its text keeps the wording, whatever characters that holds inside one line. What the
client makes of the reply is a refusal with exactly these three.
-/

namespace VolumeStore

namespace Text

def opensPlainly (text : String) : Bool :=
  text.toList.head?.any fun c => !isBlank c

theorem OneLine.of_append {front text : String} (h : OneLine (front ++ text)) : OneLine text := by
  unfold OneLine at h ⊢
  rw [String.toList_append] at h
  refine ⟨fun hmem => h.1 (List.mem_append_right _ hmem), fun hlast => h.2 ?_⟩
  rw [List.getLast?_append, hlast]
  rfl

end Text

/-! ## Tokens and messages of replies -/

namespace Errno

end Errno

namespace Reply

variable {code : UInt16} {errno : Errno} {message : String}

end Reply

/-! ## What errors say -/

namespace StoreError

theorem not_lt_leastNegative (error : StoreError) :
    ¬ error.replyCode.1 < ReplyCode.leastNegative :=
  error.replyCode_of_all (¬ · < ReplyCode.leastNegative) (by decide)

end StoreError

/-! ## What a client gets -/

namespace Client

variable {σ : Type}

def answered (n : Network σ) (request : ClientRequest) (o : Online σ) (connection : ClientLine)
    (rest : Incoming) : Online σ where
  client :=
    { o.client with
      connection := some ⟨connection.line, rest⟩
      requestsSent := o.client.requestsSent + 1 }
  network := (n.send o.network connection.line request.toBytes).2

theorem exchange_of_negative {n : Network σ} {request : ClientRequest} {o : Online σ}
    {connection : ClientLine} (hconnection : o.client.connection = some connection)
    {response : Response} {rest : Incoming}
    (hread : Response.read request.command (connection.incoming.append
      (n.send o.network connection.line request.toBytes).1) = .ok (response, rest))
    (hnegative : response.reply.isPositive = false) :
    exchange n request o =
      (.error response.reply.refusalError, answered n request o connection rest) := by
  unfold exchange
  rw [hconnection]
  dsimp only
  rw [hread]
  dsimp only
  rw [hnegative]
  rfl

theorem exchange_of_positive {n : Network σ} {request : ClientRequest} {o : Online σ}
    {connection : ClientLine} (hconnection : o.client.connection = some connection)
    {response : Response} {rest : Incoming}
    (hread : Response.read request.command (connection.incoming.append
      (n.send o.network connection.line request.toBytes).1) = .ok (response, rest))
    (hpositive : response.reply.isPositive = true) :
    exchange n request o = (.ok response, answered n request o connection rest) := by
  unfold exchange
  rw [hconnection]
  dsimp only
  rw [hread]
  dsimp only
  rw [hpositive]
  rfl

theorem read_of_exchange_eq_ok {n : Network σ} {request : ClientRequest} {o : Online σ}
    {connection : ClientLine} (hconnection : o.client.connection = some connection)
    {response : Response} (hok : (exchange n request o).1 = .ok response) :
    ∃ rest, Response.read request.command (connection.incoming.append
        (n.send o.network connection.line request.toBytes).1) = .ok (response, rest) ∧
      response.reply.isPositive = true := by
  unfold exchange at hok
  rw [hconnection] at hok
  dsimp only at hok
  split at hok
  · cases hok
  next hread =>
    split at hok
    next hpositive =>
      cases hok
      exact ⟨_, hread, hpositive⟩
    · cases hok

end Client

end VolumeStore
