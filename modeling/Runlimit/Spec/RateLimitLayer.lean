import Runlimit.Spec.Reference
import Runlimit.Machine.Run

/-!
# The admission middleware

A `RateLimitLayer` makes one check before it calls the wrapped service. Layers are stacked, the outermost first, and
share what their limiters keep (`W`: some stores, a database). Many requests are in flight at once: each is a future
that waits for the check of its next layer, and the runtime polls them in any order. What the environment gives a
check, such as a clock reading, comes with the poll (`T`).
-/

namespace Runlimit

/-! ## Admissions -/

/-- A decision that permits the request. -/
inductive Admitted where
  | allowed (allowance : Allowance)
  | shadowDenied (denial : QuotaDenial)
  deriving DecidableEq

/-- `Decision::admit`. -/
def Decision.toAdmitted : Decision → Except Denial Admitted
  | .allowed allowance => .ok (.allowed allowance)
  | .shadowDenied denial => .ok (.shadowDenied denial)
  | .denied denial => .error denial

namespace Axum

structure Admission where
  policyId : PolicyId
  scopeId : ScopeId
  fingerprint : PolicyFingerprint
  decision : Admitted

namespace Admission

variable {P : Type} [RateLimitPolicy P]

def new (policy : P) (decision : Admitted) : Admission :=
  ⟨RateLimitPolicy.id policy, RateLimitPolicy.scope policy, RateLimitPolicy.fingerprint policy, decision⟩

def isFor (policy : P) (admission : Admission) : Bool :=
  admission.policyId = RateLimitPolicy.id policy ∧ admission.scopeId = RateLimitPolicy.scope policy ∧
    admission.fingerprint = RateLimitPolicy.fingerprint policy

end Admission

/-- The admitted decisions of every layer that a request passed. -/
structure Admissions where
  entries : List Admission

namespace Admissions

def push (admissions : Admissions) (admission : Admission) : Admissions :=
  ⟨admissions.entries ++ [admission]⟩

def get {P : Type} [RateLimitPolicy P] (admissions : Admissions) (policy : P) : Option Admission :=
  admissions.entries.find? (Admission.isFor policy)

/-- `Admissions::from`. -/
def ofAdmission (admission : Admission) : Admissions := ⟨[admission]⟩

end Admissions

/-- A request: the `Admissions` among its extensions, and all else. -/
structure HttpRequest (B : Type) where
  content : B
  admissions : Option Admissions

/-- A layer's record in the extensions of the request. -/
def HttpRequest.record {B : Type} (request : HttpRequest B) (admission : Admission) : HttpRequest B :=
  match request.admissions with
  | some admissions => { request with admissions := some (admissions.push admission) }
  | none => { request with admissions := some (Admissions.ofAdmission admission) }

/-! ## Layers -/

inductive RejectionKind where
  | key
  | denied
  | backend
  deriving DecidableEq

inductive RateLimitRejection (KeyError BackendError : Type) where
  | key (error : KeyError)
  | denied (denial : Denial)
  | backend (error : BackendError)

def RateLimitRejection.kind {K E : Type} : RateLimitRejection K E → RejectionKind
  | .key _ => .key
  | .denied _ => .denied
  | .backend _ => .backend

/-- A layer: the limiter's `check`, the policy, and what the application supplies. -/
structure RateLimitLayer (T W B R : Type) where
  Policy : Type
  [rateLimitPolicy : RateLimitPolicy Policy]
  KeyError : Type
  BackendError : Type
  check : T → Check Policy → W → CallResult (Except BackendError Decision) × W
  policy : Policy
  extractSubjectKey : HttpRequest B → Policy → Except KeyError SubjectKey
  rejectionMapper : RateLimitRejection KeyError BackendError → R

attribute [instance] RateLimitLayer.rateLimitPolicy

namespace RateLimitLayer

variable {T W B R : Type} (layer : RateLimitLayer T W B R)

/-- What a layer makes of a decision. -/
def judge (decision : Decision) : Except (RateLimitRejection layer.KeyError layer.BackendError) Admitted :=
  match decision.toAdmitted with
  | .ok admitted => .ok admitted
  | .error denial => .error (.denied denial)

/-- The future of `RateLimitService::call` up to its call of the wrapped service: what the limiter admits, or a
rejection. -/
def admission (t : T) (request : HttpRequest B) (w : W) :
    CallResult (Except (RateLimitRejection layer.KeyError layer.BackendError) Admitted) × W :=
  match layer.extractSubjectKey request layer.policy with
  | .error error => (.returned (.error (.key error)), w)
  | .ok subject =>
    match layer.check t (Check.new layer.policy subject) w with
    | (.panicked, w) => (.panicked, w)
    | (.returned (.error error), w) => (.returned (.error (.backend error)), w)
    | (.returned (.ok decision), w) => (.returned (layer.judge decision), w)

end RateLimitLayer

/-! ## Requests in flight -/

/-- A request on its way through the layers. -/
inductive Flight (B R : Type) where
  /-- The layers before this depth have admitted it. -/
  | pending (request : HttpRequest B) (depth : ℕ)
  /-- Every layer has admitted it, and the wrapped service has it. -/
  | reached (request : HttpRequest B)
  | rejected (response : R)
  | panicked

/-- What a layer has made of a request. -/
inductive Judgement where
  | admitted (decision : Admitted)
  | rejected (kind : RejectionKind)
  | panicked
  deriving DecidableEq

structure Server (W B R : Type) where
  world : W
  flights : List (Flight B R)

inductive Turn (T B : Type) where
  | arrive (request : HttpRequest B)
  | poll (flight : ℕ) (t : T)

namespace Server

variable {T W B R : Type} (layers : List (RateLimitLayer T W B R))

def new (world : W) : Server W B R := ⟨world, []⟩

/-- A request on its way goes past its next layer, or to the wrapped service after the last. -/
def advance (t : T) (request : HttpRequest B) (depth : ℕ) (w : W) : Option Judgement × Flight B R × W :=
  match layers[depth]? with
  | none => (none, .reached request, w)
  | some layer =>
    match layer.admission t request w with
    | (.panicked, w) => (some .panicked, .panicked, w)
    | (.returned (.error rejection), w) =>
      (some (.rejected rejection.kind), .rejected (layer.rejectionMapper rejection), w)
    | (.returned (.ok decision), w) =>
      (some (.admitted decision), .pending (request.record (Admission.new layer.policy decision)) (depth + 1), w)

/-- A turn, and the judgement that it brings: of which request, and which. -/
def serve (turn : Turn T B) (server : Server W B R) : Option (ℕ × Judgement) × Server W B R :=
  match turn with
  | .arrive request => (none, { server with flights := server.flights ++ [.pending request 0] })
  | .poll flight t =>
    match server.flights[flight]? with
    | some (.pending request depth) =>
      let (judgement, next, w) := advance layers t request depth server.world
      (judgement.map fun j => (flight, j), ⟨w, server.flights.set flight next⟩)
    | _ => (none, server)

/-- The server after some turns. -/
def after (world : W) (turns : List (Turn T B)) : Server W B R :=
  Machine.final (serve layers) (new world) turns

/-- The judgement of each turn; none where a turn brings none. -/
def outputs (world : W) (turns : List (Turn T B)) : List (Option (ℕ × Judgement)) :=
  Machine.outputs (serve layers) (new world : Server W B R) turns

end Server

/-- How many of these turns poll a request that has arrived; so many had arrived before them. -/
def polls {T B : Type} (flight : ℕ) : ℕ → List (Turn T B) → ℕ
  | _, [] => 0
  | arrived, .arrive _ :: turns => polls flight (arrived + 1) turns
  | arrived, .poll i _ :: turns => (if i = flight ∧ flight < arrived then 1 else 0) + polls flight arrived turns

/-- The requests that arrive in some turns, in order. -/
def arrivals {T B : Type} (turns : List (Turn T B)) : List (HttpRequest B) :=
  turns.filterMap fun turn =>
    match turn with
    | .arrive request => some request
    | .poll _ _ => none

/-- The judgements of one request. -/
def judgements (outputs : List (Option (ℕ × Judgement))) (flight : ℕ) : List Judgement :=
  outputs.filterMap fun output => output.bind fun p => if p.1 = flight then some p.2 else none

end Axum

end Runlimit
