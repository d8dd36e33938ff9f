import VolumeStore.Client.Network
import VolumeStore.Client.Response
import VolumeStore.Settings.Client

/-!
# Clients

A client has one connection to a store and sends one request at a time. It keeps the connection when
a request is refused, and gives it up when a response cannot be read or does not come; from then on
every request fails without anything being sent.
-/

namespace VolumeStore

structure ClientLine where
  line : Nat
  incoming : Incoming
deriving DecidableEq, Repr

structure Client where
  settings : ClientSettings
  connection : Option ClientLine
  requestsSent : Nat := 0
deriving DecidableEq, Repr

structure Online (σ : Type) where
  client : Client
  network : σ

/-- A call on a client: it fails or has a value, and changes the client and the network. -/
abbrev Call (σ α : Type) := Online σ → Except ClientError α × Online σ

namespace Client

variable {σ : Type}

/-! ## Single requests -/

def drop (n : Network σ) (o : Online σ) (connection : ClientLine) : Online σ :=
  { client := { o.client with connection := none }
    network := n.hangUp o.network connection.line }

def exchange (n : Network σ) (request : ClientRequest) : Call σ Response := fun o =>
  match o.client.connection with
  | none => (.error .closed, o)
  | some connection =>
    let (arrived, network) := n.send o.network connection.line request.toBytes
    let o : Online σ :=
      { client := { o.client with requestsSent := o.client.requestsSent + 1 }, network := network }
    match Response.read request.command (connection.incoming.append arrived) with
    | .error error =>
      (.error (error.clientError (.reply request.command.verb.token)), drop n o connection)
    | .ok (response, rest) =>
      let o : Online σ :=
        { o with client := { o.client with connection := some ⟨connection.line, rest⟩ } }
      -- A refusal was read to its end, so the connection can be used again.
      if response.reply.isPositive then (.ok response, o)
      else (.error response.reply.refusalError, o)

def batch (n : Network σ) : List ClientRequest → Call σ (List Response)
  | [], o => (.ok [], o)
  | request :: requests, o =>
    match exchange n request o with
    | (.error error, o) => (.error error, o)
    | (.ok response, o) =>
      match batch n requests o with
      | (.error error, o) => (.error error, o)
      | (.ok responses, o) => (.ok (response :: responses), o)

/-! ## Connecting and closing -/

def readGreeting (address : String) (s : Incoming) : Except ClientError Incoming :=
  match s.readReply with
  | .error error => .error (error.clientError (.greeting address))
  | .ok (reply, rest) =>
    if reply.code = ReplyCode.ready then .ok rest else .error reply.refusalError

def dial (n : Network σ) (network : σ) (address : String) :
    Except ClientError ((Nat × Incoming) × σ) :=
  match Address.parse address with
  | .error failure => .error (.unreachable address failure)
  | .ok target =>
    match n.dial network target with
    | .error (.failed failure) => .error (.unreachable address failure)
    | .error .silent => .error (.timeout (.connection address))
    | .ok result => .ok result

def connect (n : Network σ) (network : σ) (settings : ClientSettings) :
    Except ClientError Client × σ :=
  match settings.fault? with
  | some fault => (.error (.settings fault), network)
  | none =>
    match dial n network settings.storeAddress with
    | .error error => (.error error, network)
    | .ok ((line, arrived), network) =>
      match readGreeting settings.storeAddress arrived with
      | .error error => (.error error, n.hangUp network line)
      | .ok rest =>
        let client : Client := { settings := settings, connection := some ⟨line, rest⟩ }
        match exchange n { command := .mount settings.volume } ⟨client, network⟩ with
        | (.ok _, o) => (.ok o.client, o.network)
        | (.error error, o) =>
          (.error error,
            -- A connection that was lost has been hung up already.
            if o.client.connection.isSome then n.hangUp o.network line else o.network)

def close (n : Network σ) (o : Online σ) : Online σ :=
  match o.client.connection with
  | none => o
  | some connection =>
    let request : ClientRequest := { command := .quit }
    let (_, network) := n.send o.network connection.line request.toBytes
    drop n { o with network := network } connection

end Client

end VolumeStore
