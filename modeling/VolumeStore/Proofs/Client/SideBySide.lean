import Mathlib.Logic.Function.Basic
import VolumeStore.Proofs.Client.AppendRequests

/-!
# Calls side by side

Several clients that call over one network, with their requests in any order. A call takes its turns
one exchange at a time, and if all turns are its own it is what it is alone.
-/

namespace VolumeStore

open Client

structure Sender where
  client : Client
  pending : List ClientRequest
  result : Except ClientError Unit := .ok ()

structure Crowd (σ ι : Type) where
  senders : ι → Sender
  network : σ

variable {σ ι : Type} {n : Network σ}

namespace Sender

def appending (client : Client) (path : String) (data : List UInt8) : Sender :=
  match VolumePath.normalize path with
  | .ok path => { client, pending := appendRequests client.settings.maxPayload.toNat path data }
  | .error error => { client, pending := [], result := .error (.invalidPath error) }

def advance (n : Network σ) (x : Sender) (network : σ) : Sender × σ :=
  match x.pending with
  | [] => (x, network)
  | r :: pending =>
    match exchange n r ⟨x.client, network⟩ with
    | (.ok _, o) => ({ x with client := o.client, pending }, o.network)
    | (.error error, o) =>
      ({ client := o.client, pending := [], result := .error error }, o.network)

def returned? (x : Sender) : Option (Except ClientError Unit) :=
  if x.pending = [] then some x.result else none

theorem appending_of_normalize {client : Client} {path canonical : String}
    (h : VolumePath.normalize path = .ok canonical) (data : List UInt8) :
    appending client path data =
      { client, pending := appendRequests client.settings.maxPayload.toNat canonical data } := by
  rw [appending, h]

theorem returned?_of_nil {x : Sender} (h : x.pending = []) : x.returned? = some x.result :=
  if_pos h

theorem result_of_returned? {x : Sender} {result : Except ClientError Unit}
    (h : x.returned? = some result) : x.result = result := by
  unfold returned? at h
  split at h
  · exact Option.some.inj h
  · cases h

end Sender

namespace Crowd

def appending (network : σ) (clients : ι → Client) (path : ι → String) (data : ι → List UInt8) :
    Crowd σ ι where
  senders i := .appending (clients i) (path i) (data i)
  network := network

theorem senders_appending (network : σ) (clients : ι → Client) (path : ι → String)
    (data : ι → List UInt8) (i : ι) :
    (appending network clients path data).senders i =
      .appending (clients i) (path i) (data i) := rfl

def online (c : Crowd σ ι) (i : ι) : Online σ :=
  ⟨(c.senders i).client, c.network⟩

variable [DecidableEq ι]

def turn (n : Network σ) (c : Crowd σ ι) (i : ι) : Crowd σ ι :=
  let (x, network) := (c.senders i).advance n c.network
  { senders := Function.update c.senders i x, network }

def run (n : Network σ) (c : Crowd σ ι) : List ι → Crowd σ ι
  | [] => c
  | i :: schedule => (c.turn n i).run n schedule

variable {c : Crowd σ ι} {i j : ι} {r : ClientRequest} {pending : List ClientRequest}
  {response : Response} {o : Online σ}

/-! ## Turns -/

theorem turn_of_nil (h : (c.senders i).pending = []) : c.turn n i = c := by
  unfold turn Sender.advance
  rw [h]
  dsimp only
  rw [Function.update_eq_self]

theorem turn_of_ok (h : (c.senders i).pending = r :: pending)
    (hok : exchange n r (c.online i) = (.ok response, o)) :
    c.turn n i =
      { senders := Function.update c.senders i
          { c.senders i with client := o.client, pending }
        network := o.network } := by
  unfold turn Sender.advance
  rw [h]
  dsimp only
  rw [show exchange n r ⟨(c.senders i).client, c.network⟩ = _ from hok]

theorem turn_of_error (h : (c.senders i).pending = r :: pending) {error : ClientError}
    (herror : exchange n r (c.online i) = (.error error, o)) :
    c.turn n i =
      { senders := Function.update c.senders i
          { client := o.client, pending := [], result := .error error }
        network := o.network } := by
  unfold turn Sender.advance
  rw [h]
  dsimp only
  rw [show exchange n r ⟨(c.senders i).client, c.network⟩ = _ from herror]

theorem senders_turn_of_ne (h : j ≠ i) : (c.turn n i).senders j = c.senders j :=
  Function.update_of_ne h _ _

theorem senders_turn_self (h : (c.senders i).pending = r :: pending)
    (hok : exchange n r (c.online i) = (.ok response, o)) :
    (c.turn n i).senders i = { c.senders i with client := o.client, pending } := by
  rw [turn_of_ok h hok]
  exact Function.update_self i _ _

theorem result_of_turn (h : ((c.turn n i).senders j).result = .ok ()) :
    (c.senders j).result = .ok () := by
  cases hpending : (c.senders i).pending with
  | nil => rwa [turn_of_nil hpending] at h
  | cons r pending =>
    obtain rfl | hj := eq_or_ne j i
    · cases hexchange : exchange n r (c.online j) with
      | mk result o =>
        cases result with
        | ok response => rwa [senders_turn_self hpending hexchange] at h
        | error error => simp [turn_of_error hpending hexchange] at h
    · rwa [senders_turn_of_ne hj] at h

theorem result_of_run {schedule : List ι} (h : ((c.run n schedule).senders j).result = .ok ()) :
    (c.senders j).result = .ok () := by
  induction schedule generalizing c with
  | nil => exact h
  | cons i schedule ih => exact result_of_turn (ih h)

theorem exchange_of_run {schedule : List ι} (h : (c.senders i).pending = r :: pending)
    (hok : ((c.run n (i :: schedule)).senders i).result = .ok ()) :
    ∃ response o, exchange n r (c.online i) = (.ok response, o) := by
  have hturn : ((c.turn n i).senders i).result = .ok () := result_of_run hok
  cases hexchange : exchange n r (c.online i) with
  | mk result o =>
    cases result with
    | ok response => exact ⟨response, o, rfl⟩
    | error error => simp [turn_of_error h hexchange] at hturn

/-! ## A call on its own -/

theorem run_replicate_of_nil (h : (c.senders i).pending = []) (k : Nat) :
    c.run n (List.replicate k i) = c := by
  induction k with
  | zero => rfl
  | succ k ih => rw [List.replicate_succ, run, turn_of_nil h, ih]

def orderAll (n : Network σ) (requests : List ClientRequest) : Call σ Unit :=
  andThen (batch n requests) fun _ => .ok ()

theorem orderAll_cons_of_error {error : ClientError} {o' : Online σ}
    (h : exchange n r o = (.error error, o')) :
    orderAll n (r :: pending) o = (.error error, o') := by
  unfold orderAll andThen batch
  rw [h]

theorem orderAll_cons_of_ok {o' : Online σ} (h : exchange n r o = (.ok response, o')) :
    orderAll n (r :: pending) o = orderAll n pending o' := by
  obtain ⟨result, o'', hbatch⟩ : ∃ result o'', batch n pending o' = (result, o'') := ⟨_, _, rfl⟩
  have hcons : batch n (r :: pending) o = (result.map (response :: ·), o'') := by
    unfold batch
    rw [h]
    dsimp only
    rw [hbatch]
    cases result with
    | error error => rfl
    | ok responses => rfl
  unfold orderAll andThen
  rw [hcons, hbatch]
  cases result with
  | error error => rfl
  | ok responses => rfl

theorem run_replicate {requests : List ClientRequest} (hpending : (c.senders i).pending = requests)
    (hresult : (c.senders i).result = .ok ()) :
    let alone := c.run n (List.replicate requests.length i)
    (alone.senders i).returned? = some (orderAll n requests (c.online i)).1 ∧
      alone.online i = (orderAll n requests (c.online i)).2 := by
  -- The induction is on the requests. After a failure the turns that are left do nothing.
  induction requests generalizing c with
  | nil =>
    refine ⟨?_, rfl⟩
    show (c.senders i).returned? = _
    rw [Sender.returned?_of_nil hpending, hresult]
    rfl
  | cons r requests ih =>
    rw [List.length_cons, List.replicate_succ, run]
    cases hexchange : exchange n r (c.online i) with
    | mk result o =>
      cases result with
      | error error =>
        rw [turn_of_error hpending hexchange, run_replicate_of_nil (by simp),
          orderAll_cons_of_error hexchange]
        simp [Sender.returned?, online]
      | ok response =>
        have hself := senders_turn_self hpending hexchange
        have honline : (c.turn n i).online i = o := by
          rw [online, hself, turn_of_ok hpending hexchange]
        rw [orderAll_cons_of_ok hexchange, ← honline]
        refine ih ?_ ?_
        · rw [hself]
        · rw [hself]
          exact hresult

theorem run_replicate_appending (n : Network σ) (network : σ) (clients : ι → Client)
    (path : ι → String) (data : ι → List UInt8) (i : ι) :
    let c := Crowd.appending network clients path data
    let alone := c.run n (List.replicate (c.senders i).pending.length i)
    (alone.senders i).returned? =
        some (appendFile n (path i) (data i) ⟨clients i, network⟩).1 ∧
      alone.online i = (appendFile n (path i) (data i) ⟨clients i, network⟩).2 := by
  intro c alone
  have hsender := senders_appending network clients path data i
  -- A path that cannot be used leaves nothing to send, for a sender as for the call.
  cases hpath : VolumePath.normalize (path i) with
  | error error =>
    have hnone : c.senders i =
        { client := clients i, pending := [], result := .error (.invalidPath error) } := by
      rw [hsender, Sender.appending, hpath]
    have halone : alone = c := run_replicate_of_nil (by rw [hnone]) _
    rw [halone, online, hnone, appendFile, withPath, hpath]
    exact ⟨rfl, rfl⟩
  | ok canonical =>
    have hthere : c.senders i =
        { client := clients i
          pending := appendRequests (clients i).settings.maxPayload.toNat canonical (data i) } :=
      Sender.appending_of_normalize hpath (data i)
    have honline : c.online i = ⟨clients i, network⟩ := by
      rw [online, hthere]
      rfl
    have hrun := run_replicate (n := n) (c := c) (i := i) rfl (by rw [hthere])
    have hcall : appendFile n (path i) (data i) ⟨clients i, network⟩ =
        orderAll n (c.senders i).pending ⟨clients i, network⟩ := by
      rw [appendFile, withPath, hpath, hthere]
      rfl
    rwa [honline, ← hcall] at hrun

end Crowd

end VolumeStore
