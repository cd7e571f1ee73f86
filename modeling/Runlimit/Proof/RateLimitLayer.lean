import Runlimit.Spec.RateLimitLayer
import Runlimit.Proof.Unobservable

/-!
# What the wrapped service sees

`Flown` says where a request is after its judgements: the layers have admitted it one after another, the outermost
first, and each has appended its own admission; a rejection or a panic ends the way, and only a request that every
layer has admitted reaches the wrapped service. `Judged` names the turn that brings a judgement. Every turn keeps
all this, whichever request is polled (`serve_flies`), so it holds in every interleaving.
-/

namespace Runlimit.Axum

variable {T W B R : Type} {layers : List (RateLimitLayer T W B R)} {request : HttpRequest B}

/-! ## Records -/

namespace HttpRequest

/-- The admissions of a request; none without the extension. -/
def entries (request : HttpRequest B) : List Admission :=
  match request.admissions with
  | some admissions => admissions.entries
  | none => []

theorem entries_of_none (h : request.admissions = none) : request.entries = [] := by
  unfold entries
  rw [h]

theorem entries_of_some {admissions : Admissions} (h : request.admissions = some admissions) :
    request.entries = admissions.entries := by
  unfold entries
  rw [h]

/-- A record changes the extension alone. -/
@[simp]
theorem record_content (admission : Admission) : (request.record admission).content = request.content := by
  unfold record
  split <;> rfl

/-- A record comes last, in an extension that is made if there is none. -/
@[simp]
theorem record_admissions (admission : Admission) :
    (request.record admission).admissions = some ⟨request.entries ++ [admission]⟩ := by
  unfold record entries
  cases request.admissions <;> rfl

/-- The records of several layers. -/
def recordAll (request : HttpRequest B) (admissions : List Admission) : HttpRequest B :=
  admissions.foldl record request

theorem recordAll_append (admissions : List Admission) (admission : Admission) :
    request.recordAll (admissions ++ [admission]) = (request.recordAll admissions).record admission := by
  unfold recordAll
  rw [List.foldl_append]
  rfl

/-- Several records leave the content, and come last in order. -/
theorem recordAll_spec (request : HttpRequest B) (admissions : List Admission) :
    (request.recordAll admissions).content = request.content ∧
      (request.recordAll admissions).entries = request.entries ++ admissions := by
  induction admissions using List.reverseRecOn with
  | nil => exact ⟨rfl, (List.append_nil _).symm⟩
  | append_singleton admissions admission ih =>
    have hentries : ((request.recordAll admissions).record admission).entries =
        (request.recordAll admissions).entries ++ [admission] := by
      rw [entries, record_admissions]
    rw [recordAll_append, record_content, hentries, ih.2, List.append_assoc]
    exact ⟨ih.1, rfl⟩

end HttpRequest

/-! ## The way of a request -/

/-- The admissions that the first layers record. -/
def recorded (layers : List (RateLimitLayer T W B R)) (decisions : List Admitted) : List Admission :=
  List.zipWith (fun layer decision => Admission.new layer.policy decision) layers decisions

/-- The request as the layer after these decisions gets it. -/
def handed (layers : List (RateLimitLayer T W B R)) (request : HttpRequest B) (decisions : List Admitted) :
    HttpRequest B :=
  request.recordAll (recorded layers decisions)

/-- What the limiter of a layer returns for the layer's own policy and the subject extracted from the request, at a poll
and in the world that it finds. -/
def RateLimitLayer.Decided (layer : RateLimitLayer T W B R) (t : T) (w : W) (request : HttpRequest B)
    (result : CallResult (Except layer.BackendError Decision)) : Prop :=
  ∃ subject, layer.extractSubjectKey request layer.policy = .ok subject ∧
    (layer.check t (Check.new layer.policy subject) w).1 = result

/-- Why a layer rejects a request. -/
def RateLimitLayer.Rejects (layer : RateLimitLayer T W B R) (t : T) (w : W) (request : HttpRequest B) :
    RateLimitRejection layer.KeyError layer.BackendError → Prop
  | .key error => layer.extractSubjectKey request layer.policy = .error error
  | .denied denial => layer.Decided t w request (.returned (.ok (.denied denial)))
  | .backend error => layer.Decided t w request (.returned (.error error))

/-- A turn of the run brings the request this judgement, after these: the poll of the turn, and the world before it. -/
def Judged (layers : List (RateLimitLayer T W B R)) (world : W) (turns : List (Turn T B)) (flight : ℕ)
    (earlier : List Judgement) (judgement : Judgement) (t : T) (w : W) : Prop :=
  ∃ n, turns[n]? = some (.poll flight t) ∧ (Server.after layers world (turns.take n)).world = w ∧
    judgements (Server.outputs layers world (turns.take n)) flight = earlier ∧
    (Server.outputs layers world turns)[n]? = some (some (flight, judgement))

/-- Each decision is one that its layer's limiter gave, at the poll and in the world of the turn that brought it, to the
request with the admissions of the layers before. -/
def Passed (layers : List (RateLimitLayer T W B R)) (brings : List Judgement → Judgement → T → W → Prop)
    (request : HttpRequest B) (decisions : List Admitted) : Prop :=
  ∀ (k : ℕ) (layer : RateLimitLayer T W B R) (admitted : Admitted), layers[k]? = some layer →
    decisions[k]? = some admitted →
    ∃ (t : T) (w : W) (decision : Decision), brings ((decisions.take k).map .admitted) (.admitted admitted) t w ∧
      layer.Decided t w (handed layers request (decisions.take k)) (.returned (.ok decision)) ∧
      decision.toAdmitted = .ok admitted

/-- Where a request is after its judgements, which these turns have brought. -/
inductive Flown (layers : List (RateLimitLayer T W B R)) (brings : List Judgement → Judgement → T → W → Prop)
    (request : HttpRequest B) : List Judgement → Flight B R → Prop where
  | pending (decisions : List Admitted) (hpassed : Passed layers brings request decisions)
      (hdepth : decisions.length ≤ layers.length) :
      Flown layers brings request (decisions.map .admitted)
        (.pending (handed layers request decisions) decisions.length)
  | reached (decisions : List Admitted) (hpassed : Passed layers brings request decisions)
      (hall : decisions.length = layers.length) :
      Flown layers brings request (decisions.map .admitted) (.reached (handed layers request decisions))
  | rejected (decisions : List Admitted) (hpassed : Passed layers brings request decisions)
      (layer : RateLimitLayer T W B R) (hlayer : layers[decisions.length]? = some layer)
      (rejection : RateLimitRejection layer.KeyError layer.BackendError) (t : T) (w : W)
      (hbrings : brings (decisions.map .admitted) (.rejected rejection.kind) t w)
      (hrejects : layer.Rejects t w (handed layers request decisions) rejection) :
      Flown layers brings request (decisions.map .admitted ++ [.rejected rejection.kind])
        (.rejected (layer.rejectionMapper rejection))
  | panicked (decisions : List Admitted) (hpassed : Passed layers brings request decisions)
      (layer : RateLimitLayer T W B R) (hlayer : layers[decisions.length]? = some layer) (t : T) (w : W)
      (hbrings : brings (decisions.map .admitted) .panicked t w)
      (hpanics : layer.Decided t w (handed layers request decisions) .panicked) :
      Flown layers brings request (decisions.map .admitted ++ [.panicked]) .panicked

variable {brings brings' : List Judgement → Judgement → T → W → Prop}

/-- What has brought the decisions has brought them in every longer run. -/
theorem Passed.mono (hle : ∀ earlier judgement t w, brings earlier judgement t w → brings' earlier judgement t w)
    {decisions : List Admitted} (h : Passed layers brings request decisions) :
    Passed layers brings' request decisions := by
  intro k layer admitted hlayer hadmitted
  obtain ⟨t, w, decision, hbrings, hdecided⟩ := h k layer admitted hlayer hadmitted
  exact ⟨t, w, decision, hle _ _ _ _ hbrings, hdecided⟩

/-- The way so far is one of every longer run. -/
theorem Flown.mono (hle : ∀ earlier judgement t w, brings earlier judgement t w → brings' earlier judgement t w)
    {js : List Judgement} {f : Flight B R} (h : Flown layers brings request js f) :
    Flown layers brings' request js f := by
  cases h with
  | pending decisions hpassed hdepth => exact .pending decisions (hpassed.mono hle) hdepth
  | reached decisions hpassed hall => exact .reached decisions (hpassed.mono hle) hall
  | rejected decisions hpassed layer hlayer rejection t w hbrings hrejects =>
    exact .rejected decisions (hpassed.mono hle) layer hlayer rejection t w (hle _ _ _ _ hbrings) hrejects
  | panicked decisions hpassed layer hlayer t w hbrings hpanics =>
    exact .panicked decisions (hpassed.mono hle) layer hlayer t w (hle _ _ _ _ hbrings) hpanics

/-! ## One poll -/

/-- What an admission finds: a subject that the limiter has decided on, or a rejection. -/
def RateLimitLayer.Finds (layer : RateLimitLayer T W B R) (t : T) (w : W) (request : HttpRequest B) :
    CallResult (Except (RateLimitRejection layer.KeyError layer.BackendError) Admitted) → Prop
  | .panicked => layer.Decided t w request .panicked
  | .returned (.error rejection) => layer.Rejects t w request rejection
  | .returned (.ok admitted) =>
    ∃ decision : Decision, layer.Decided t w request (.returned (.ok decision)) ∧ decision.toAdmitted = .ok admitted

/-- A decision admits, or it is the denial that the layer rejects with. -/
theorem RateLimitLayer.judge_finds {layer : RateLimitLayer T W B R} {t : T} {w : W} {decision : Decision}
    (h : layer.Decided t w request (.returned (.ok decision))) :
    layer.Finds t w request (.returned (layer.judge decision)) := by
  cases decision with
  | allowed allowance => exact ⟨_, h, rfl⟩
  | shadowDenied denial => exact ⟨_, h, rfl⟩
  | denied denial => exact h

/-- **One admission.** What a layer makes of a request is what its limiter returns for it. -/
theorem RateLimitLayer.admission_finds (layer : RateLimitLayer T W B R) (t : T) (request : HttpRequest B) (w : W) :
    layer.Finds t w request (layer.admission t request w).1 := by
  unfold RateLimitLayer.admission
  cases hsubject : layer.extractSubjectKey request layer.policy with
  | error error => exact hsubject
  | ok subject =>
    have hdecided : layer.Decided t w request (layer.check t (Check.new layer.policy subject) w).1 :=
      ⟨subject, hsubject, rfl⟩
    simp only
    cases hcheck : layer.check t (Check.new layer.policy subject) w with
    | mk result w' =>
      rw [hcheck] at hdecided
      cases result with
      | panicked => exact hdecided
      | returned result =>
        cases result with
        | error error => exact hdecided
        | ok decision => exact RateLimitLayer.judge_finds hdecided

/-- One more decision is one more record, of the next layer. -/
theorem recorded_snoc {decisions : List Admitted} {layer : RateLimitLayer T W B R}
    (hlayer : layers[decisions.length]? = some layer) (decision : Admitted) :
    recorded layers (decisions ++ [decision]) = recorded layers decisions ++ [Admission.new layer.policy decision] := by
  induction decisions generalizing layers with
  | nil =>
    cases layers with
    | nil => exact absurd hlayer (by simp)
    | cons first rest =>
      rw [List.length_nil, List.getElem?_cons_zero, Option.some.injEq] at hlayer
      simp [recorded, hlayer]
  | cons first decisions ih =>
    cases layers with
    | nil => exact absurd hlayer (by simp)
    | cons outer rest =>
      rw [List.length_cons, List.getElem?_cons_succ] at hlayer
      have hrest := ih hlayer
      unfold recorded at hrest ⊢
      rw [List.cons_append, List.zipWith_cons_cons, List.zipWith_cons_cons, hrest, List.cons_append]

/-- A request that has passed some layers passes the next one with its decision. -/
theorem Passed.snoc {decisions : List Admitted} (h : Passed layers brings request decisions)
    {layer : RateLimitLayer T W B R} (hlayer : layers[decisions.length]? = some layer) {t : T} {w : W}
    {decision : Decision} {admitted : Admitted} (hbrings : brings (decisions.map .admitted) (.admitted admitted) t w)
    (hdecided : layer.Decided t w (handed layers request decisions) (.returned (.ok decision)))
    (hadmitted : decision.toAdmitted = .ok admitted) :
    Passed layers brings request (decisions ++ [admitted]) := by
  intro k other next hother hnext
  rcases Nat.lt_trichotomy k decisions.length with hlt | heq | hgt
  · rw [List.getElem?_append_left hlt] at hnext
    rw [List.take_append_of_le_length hlt.le]
    exact h k other next hother hnext
  · -- the new decision, on the request with the records before it
    subst heq
    rw [hlayer, Option.some.injEq] at hother
    subst hother
    rw [List.getElem?_concat_length, Option.some.injEq] at hnext
    subst hnext
    rw [List.take_left']
    · exact ⟨t, w, decision, hbrings, hdecided, hadmitted⟩
    · rfl
  · rw [List.getElem?_eq_none (by rw [List.length_append, List.length_singleton]; omega)] at hnext
    cases hnext

/-- **One poll.** The next layer judges the request, and nothing else does. -/
theorem Flown.advance {decisions : List Admitted} (hpassed : Passed layers brings request decisions)
    (hdepth : decisions.length ≤ layers.length) (t : T) (w : W)
    (hbrings : ∀ judgement, (Server.advance layers t (handed layers request decisions) decisions.length w).1 =
      some judgement → brings (decisions.map .admitted) judgement t w) :
    Flown layers brings request
      (decisions.map .admitted ++
        (Server.advance layers t (handed layers request decisions) decisions.length w).1.toList)
      (Server.advance layers t (handed layers request decisions) decisions.length w).2.1 := by
  unfold Server.advance at hbrings ⊢
  cases hlayer : layers[decisions.length]? with
  | none =>
    -- no layer is left
    have hall : layers.length ≤ decisions.length := List.getElem?_eq_none_iff.1 hlayer
    simp only [Option.toList_none, List.append_nil]
    exact .reached decisions hpassed (by omega)
  | some layer =>
    have hfinds := layer.admission_finds t (handed layers request decisions) w
    have hlt : decisions.length < layers.length := (List.getElem?_eq_some_iff.1 hlayer).1
    cases hadmission : layer.admission t (handed layers request decisions) w with
    | mk result w' =>
      rw [hadmission] at hfinds
      simp only [hlayer, hadmission] at hbrings ⊢
      cases result with
      | panicked => exact .panicked decisions hpassed layer hlayer t w (hbrings _ rfl) hfinds
      | returned result =>
        cases result with
        | error rejection => exact .rejected decisions hpassed layer hlayer rejection t w (hbrings _ rfl) hfinds
        | ok admitted =>
          obtain ⟨decision, hdecided, hadmitted⟩ := hfinds
          -- the layer appends its own record
          have hnext : (handed layers request decisions).record (Admission.new layer.policy admitted) =
              handed layers request (decisions ++ [admitted]) := by
            unfold handed
            rw [recorded_snoc hlayer, HttpRequest.recordAll_append]
          have hpending := Flown.pending (decisions ++ [admitted])
            (hpassed.snoc hlayer (hbrings _ rfl) hdecided hadmitted)
            (by rw [List.length_append, List.length_singleton]; omega)
          rw [List.map_append, List.length_append, List.length_singleton, ← hnext] at hpending
          exact hpending

/-- A poll of a request that has a layer before it brings a judgement. -/
theorem Server.advance_judges {depth : ℕ} (hdepth : depth < layers.length) (t : T) (w : W) :
    ∃ judgement, (Server.advance layers t request depth w).1 = some judgement := by
  unfold Server.advance
  rw [List.getElem?_eq_getElem hdepth]
  simp only
  cases layers[depth].admission t request w with
  | mk result w' =>
    cases result with
    | panicked => exact ⟨_, rfl⟩
    | returned result =>
      cases result with
      | error rejection => exact ⟨_, rfl⟩
      | ok admitted => exact ⟨_, rfl⟩

/-- After the last layer a poll hands the request to the wrapped service. -/
theorem Server.lt_of_advance_pending {depth depth' : ℕ} {t : T} {w : W} {sent : HttpRequest B}
    (h : (Server.advance layers t request depth w).2.1 = .pending sent depth') : depth < layers.length := by
  by_contra hnot
  unfold Server.advance at h
  rw [List.getElem?_eq_none (not_lt.1 hnot)] at h
  cases h

/-! ## Runs -/

theorem judgements_append (outputs : List (Option (ℕ × Judgement))) (output : Option (ℕ × Judgement)) (flight : ℕ) :
    judgements (outputs ++ [output]) flight = judgements outputs flight ++ judgements [output] flight :=
  List.filterMap_append ..

/-- A turn without a judgement changes no request's judgements. -/
theorem judgements_none (outputs : List (Option (ℕ × Judgement))) (flight : ℕ) :
    judgements (outputs ++ [none]) flight = judgements outputs flight := by
  rw [judgements_append]
  exact List.append_nil _

/-- A turn brings its own request at most one judgement. -/
theorem judgements_own (judgement : Option Judgement) (flight : ℕ) :
    judgements [judgement.map fun j => (flight, j)] flight = judgement.toList := by
  cases judgement with
  | none => rfl
  | some j => simp [judgements]

/-- A turn brings other requests none. -/
theorem judgements_other {flight other : ℕ} (hne : flight ≠ other) (judgement : Option Judgement) :
    judgements [judgement.map fun j => (flight, j)] other = [] := by
  cases judgement with
  | none => rfl
  | some j => simp [judgements, hne]

/-- The first layer gets the request as it arrived. -/
theorem handed_nil (layers : List (RateLimitLayer T W B R)) (request : HttpRequest B) :
    handed layers request [] = request := by
  unfold handed recorded
  rw [List.zipWith_nil_right]
  rfl

theorem arrivals_append (turns : List (Turn T B)) (turn : Turn T B) :
    arrivals (turns ++ [turn]) = arrivals turns ++ arrivals [turn] :=
  List.filterMap_append ..

/-- No request arrives with a poll. -/
theorem arrivals_poll (turns : List (Turn T B)) (flight : ℕ) (t : T) :
    arrivals (turns ++ [.poll flight t]) = arrivals turns := by
  rw [arrivals_append]
  exact List.append_nil _

/-- The polls of one turn more; the requests that arrived before it can be polled. -/
theorem polls_append (flight : ℕ) (turn : Turn T B) (turns : List (Turn T B)) : ∀ arrived,
    polls flight arrived (turns ++ [turn]) =
      polls flight arrived turns + polls flight (arrived + (arrivals turns).length) [turn] := by
  induction turns with
  | nil => exact fun arrived => (Nat.zero_add _).symm
  | cons first turns ih =>
    intro arrived
    cases first with
    | arrive request =>
      have hlength : (arrivals (.arrive request :: turns)).length = (arrivals turns).length + 1 := rfl
      rw [List.cons_append, polls, polls, ih, hlength, Nat.add_right_comm arrived, Nat.add_assoc arrived]
    | poll i t =>
      have hlength : (arrivals (.poll i t :: turns)).length = (arrivals turns).length := rfl
      rw [List.cons_append, polls, polls, ih, hlength, Nat.add_assoc]

/-- No poll finds a request that has not arrived. -/
theorem polls_of_le {flight : ℕ} {turns : List (Turn T B)} : ∀ {arrived}, arrived + (arrivals turns).length ≤ flight →
    polls flight arrived turns = 0 := by
  induction turns with
  | nil => exact fun _ => rfl
  | cons first turns ih =>
    intro arrived hle
    cases first with
    | arrive request =>
      have hlength : (arrivals (.arrive request :: turns)).length = (arrivals turns).length + 1 := rfl
      exact ih (by omega)
    | poll i t =>
      have hlength : (arrivals (.poll i t :: turns)).length = (arrivals turns).length := rfl
      rw [polls, if_neg (fun h => absurd h.2 (by omega)), Nat.zero_add]
      exact ih (by omega)

section Run

variable {world : W} {turns : List (Turn T B)}

/-- One turn more is one step of the server. -/
theorem Server.after_snoc (turn : Turn T B) :
    Server.after layers world (turns ++ [turn]) = (Server.serve layers turn (Server.after layers world turns)).2 :=
  Machine.final_append ..

/-- One turn more brings at most one judgement more. -/
theorem Server.outputs_snoc (turn : Turn T B) :
    Server.outputs layers world (turns ++ [turn]) =
      Server.outputs layers world turns ++ [(Server.serve layers turn (Server.after layers world turns)).1] :=
  Machine.outputs_append ..

theorem Server.length_outputs : (Server.outputs layers world turns).length = turns.length :=
  Machine.length_outputs ..

/-- A turn stays the one that brought its judgement. -/
theorem Judged.snoc {flight : ℕ} {earlier : List Judgement} {judgement : Judgement} {t : T} {w : W}
    (h : Judged layers world turns flight earlier judgement t w) (turn : Turn T B) :
    Judged layers world (turns ++ [turn]) flight earlier judgement t w := by
  obtain ⟨n, hpoll, hworld, hearlier, hjudgement⟩ := h
  have hlt : n < turns.length := (List.getElem?_eq_some_iff.1 hpoll).1
  unfold Judged
  refine ⟨n, ?_, ?_, ?_, ?_⟩
  · rw [List.getElem?_append_left hlt, hpoll]
  · rw [List.take_append_of_le_length hlt.le, hworld]
  · rw [List.take_append_of_le_length hlt.le, hearlier]
  · rw [Server.outputs_snoc, List.getElem?_append_left (by rw [Server.length_outputs]; exact hlt), hjudgement]

/-- The last turn brings what its poll finds. -/
theorem Judged.last {flight : ℕ} {judgement : Judgement} {t : T}
    (h : (Server.serve layers (.poll flight t) (Server.after layers world turns)).1 = some (flight, judgement)) :
    Judged layers world (turns ++ [.poll flight t]) flight (judgements (Server.outputs layers world turns) flight)
      judgement t (Server.after layers world turns).world := by
  refine ⟨turns.length, List.getElem?_concat_length, ?_, ?_, ?_⟩
  · rw [List.take_left']
    rfl
  · rw [List.take_left']
    rfl
  · rw [Server.outputs_snoc, h, ← @Server.length_outputs _ _ _ _ layers world turns, List.getElem?_concat_length]

/-- The way so far is one of the run with one turn more. -/
theorem Flown.snoc {flight : ℕ} {js : List Judgement} {f : Flight B R}
    (h : Flown layers (Judged layers world turns flight) request js f) (turn : Turn T B) :
    Flown layers (Judged layers world (turns ++ [turn]) flight) request js f :=
  h.mono fun _ _ _ _ hjudged => hjudged.snoc turn

end Run

/-- Every request that has arrived is where its judgements put it, and one on its way has had a judgement at every
poll. -/
structure Flies (layers : List (RateLimitLayer T W B R)) (world : W) (turns : List (Turn T B)) : Prop where
  length : (Server.after layers world turns).flights.length = (arrivals turns).length
  known : ∀ flight judgement, some (flight, judgement) ∈ Server.outputs layers world turns →
    flight < (arrivals turns).length
  flown : ∀ flight request f, (arrivals turns)[flight]? = some request →
    (Server.after layers world turns).flights[flight]? = some f →
    Flown layers (Judged layers world turns flight) request
      (judgements (Server.outputs layers world turns) flight) f
  polled : ∀ flight sent depth, (Server.after layers world turns).flights[flight]? = some (.pending sent depth) →
    (judgements (Server.outputs layers world turns) flight).length = polls flight 0 turns

section Flies

variable {world : W} {turns : List (Turn T B)}

/-- What has not arrived has no judgements. -/
theorem Flies.judgements_unknown (h : Flies layers world turns) {flight : ℕ} (hle : (arrivals turns).length ≤ flight) :
    judgements (Server.outputs layers world turns) flight = [] := by
  refine List.filterMap_eq_nil_iff.2 fun output houtput => ?_
  cases output with
  | none => rfl
  | some p =>
    have hlt := h.known p.1 p.2 houtput
    have hne : p.1 ≠ flight := by omega
    simp [hne]

/-- A new request has no judgements. -/
theorem Flies.arrive (h : Flies layers world turns) (request : HttpRequest B) :
    Flies layers world (turns ++ [.arrive request]) := by
  have harrivals : arrivals (turns ++ [.arrive request]) = arrivals turns ++ [request] := arrivals_append ..
  have houtputs : Server.outputs layers world (turns ++ [.arrive request]) =
      Server.outputs layers world turns ++ [none] := Server.outputs_snoc ..
  have hflights : (Server.after layers world (turns ++ [.arrive request])).flights =
      (Server.after layers world turns).flights ++ [.pending request 0] := by
    rw [Server.after_snoc]
    rfl
  have hlength := h.length
  have hpolls : ∀ flight, polls flight 0 (turns ++ [.arrive request]) = polls flight 0 turns :=
    fun flight => polls_append ..
  refine ⟨?_, ?_, ?_, ?_⟩
  · rw [hflights, harrivals, List.length_append, List.length_append, hlength]
    rfl
  · intro flight judgement hmem
    rw [houtputs, List.mem_append, List.mem_singleton] at hmem
    have hold := h.known flight judgement (hmem.resolve_right (Option.some_ne_none _))
    rw [harrivals, List.length_append]
    omega
  · intro flight original f hrequest hflight
    rw [houtputs, judgements_none]
    rw [harrivals] at hrequest
    rw [hflights] at hflight
    rcases Nat.lt_trichotomy flight (arrivals turns).length with hlt | heq | hgt
    · rw [List.getElem?_append_left hlt] at hrequest
      rw [List.getElem?_append_left (hlength ▸ hlt)] at hflight
      exact (h.flown flight original f hrequest hflight).snoc _
    · -- the new request itself
      rw [heq, List.getElem?_concat_length, Option.some.injEq] at hrequest
      rw [heq, ← hlength, List.getElem?_concat_length, Option.some.injEq] at hflight
      rw [h.judgements_unknown heq.ge, ← hrequest, ← hflight]
      have hpending : Flown layers (Judged layers world (turns ++ [.arrive request]) flight) request []
          (.pending (handed layers request []) 0) :=
        .pending [] (fun _ _ _ _ hdecision => nomatch hdecision) (Nat.zero_le _)
      rw [handed_nil] at hpending
      exact hpending
    · rw [List.getElem?_eq_none (by rw [List.length_append, List.length_singleton]; omega)] at hrequest
      cases hrequest
  · intro flight sent depth hflight
    rw [houtputs, judgements_none, hpolls]
    rw [hflights] at hflight
    rcases Nat.lt_or_ge flight (arrivals turns).length with hlt | hge
    · rw [List.getElem?_append_left (hlength ▸ hlt)] at hflight
      exact h.polled flight sent depth hflight
    · rw [h.judgements_unknown hge, polls_of_le (by rw [Nat.zero_add]; exact hge)]
      rfl

/-- A poll moves its own request, and no other. -/
theorem Flies.poll (h : Flies layers world turns) (i : ℕ) (t : T) {sent : HttpRequest B} {depth : ℕ}
    (hpending : (Server.after layers world turns).flights[i]? = some (.pending sent depth)) :
    Flies layers world (turns ++ [.poll i t]) := by
  have hi : i < (Server.after layers world turns).flights.length := (List.getElem?_eq_some_iff.1 hpending).1
  have harrivals := arrivals_poll turns i t
  have hserve : Server.serve layers (.poll i t) (Server.after layers world turns) =
      ((Server.advance layers t sent depth (Server.after layers world turns).world).1.map fun j => (i, j),
        ⟨(Server.advance layers t sent depth (Server.after layers world turns).world).2.2,
          (Server.after layers world turns).flights.set i
            (Server.advance layers t sent depth (Server.after layers world turns).world).2.1⟩) := by
    simp only [Server.serve, hpending]
  -- the judgement of the last turn, if it brings one
  have hlast : ∀ judgement, (Server.advance layers t sent depth (Server.after layers world turns).world).1 =
      some judgement → Judged layers world (turns ++ [.poll i t]) i
        (judgements (Server.outputs layers world turns) i) judgement t (Server.after layers world turns).world := by
    intro judgement hjudgement
    refine Judged.last ?_
    rw [hserve, hjudgement]
    rfl
  have houtputs := @Server.outputs_snoc _ _ _ _ layers world turns (.poll i t)
  have hafter := @Server.after_snoc _ _ _ _ layers world turns (.poll i t)
  rw [hserve] at houtputs hafter
  refine ⟨?_, ?_, ?_, ?_⟩
  · rw [hafter, harrivals, ← h.length]
    exact List.length_set ..
  · intro flight judgement hmem
    rw [harrivals]
    rw [houtputs] at hmem
    rcases List.mem_append.1 hmem with hold | hnew
    · exact h.known flight judgement hold
    · obtain ⟨j, -, hj⟩ := Option.map_eq_some_iff.1 (List.mem_singleton.1 hnew).symm
      rw [← (Prod.mk.inj hj).1, ← h.length]
      exact hi
  · intro flight original f hrequest hflight
    rw [harrivals] at hrequest
    rw [hafter] at hflight
    rw [houtputs, judgements_append]
    by_cases hown : i = flight
    · subst hown
      rw [List.getElem?_set_self hi, Option.some.injEq] at hflight
      rw [judgements_own, ← hflight]
      have hflown := (h.flown i original _ hrequest hpending).snoc (.poll i t)
      -- the way so far leads to the layer that is polled
      generalize judgements (Server.outputs layers world turns) i = js at hflown hlast ⊢
      cases hflown with
      | pending decisions hpassed hdepth => exact Flown.advance hpassed hdepth t _ hlast
    · rw [List.getElem?_set_ne hown] at hflight
      rw [judgements_other hown, List.append_nil]
      exact (h.flown flight original f hrequest hflight).snoc _
  · intro flight sent' depth' hflight
    rw [hafter] at hflight
    rw [houtputs, judgements_append, polls_append, Nat.zero_add, List.length_append, polls, polls, Nat.add_zero]
    by_cases hown : i = flight
    · -- a request that is still on its way after the poll has passed a layer
      subst hown
      rw [List.getElem?_set_self hi, Option.some.injEq] at hflight
      obtain ⟨judgement, hjudgement⟩ := Server.advance_judges (Server.lt_of_advance_pending hflight) t _
      rw [h.polled i sent depth hpending, judgements_own, hjudgement, if_pos ⟨rfl, h.length ▸ hi⟩]
      rfl
    · rw [List.getElem?_set_ne hown] at hflight
      rw [judgements_other hown, if_neg fun hboth => hown hboth.1, h.polled flight sent' depth' hflight]
      rfl

/-- A poll of a request that is not on its way does nothing. -/
theorem Flies.idle (h : Flies layers world turns) (i : ℕ) (t : T)
    (hdone : ∀ sent depth, (Server.after layers world turns).flights[i]? ≠ some (.pending sent depth)) :
    Flies layers world (turns ++ [.poll i t]) := by
  have harrivals := arrivals_poll turns i t
  have hserve : Server.serve layers (.poll i t) (Server.after layers world turns) =
      (none, Server.after layers world turns) := by
    unfold Server.serve
    cases hflight : (Server.after layers world turns).flights[i]? with
    | none => simp only [hflight]
    | some f =>
      cases f with
      | pending sent depth => exact absurd hflight (hdone sent depth)
      | reached request => simp only [hflight]
      | rejected response => simp only [hflight]
      | panicked => simp only [hflight]
  have houtputs := @Server.outputs_snoc _ _ _ _ layers world turns (.poll i t)
  have hafter := @Server.after_snoc _ _ _ _ layers world turns (.poll i t)
  rw [hserve] at houtputs hafter
  refine ⟨?_, ?_, ?_, ?_⟩
  · rw [hafter, harrivals, h.length]
  · intro flight judgement hmem
    rw [houtputs, List.mem_append, List.mem_singleton] at hmem
    rw [harrivals]
    exact h.known flight judgement (hmem.resolve_right (Option.some_ne_none _))
  · intro flight request f hrequest hflight
    rw [harrivals] at hrequest
    rw [hafter] at hflight
    rw [houtputs, judgements_none]
    exact (h.flown flight request f hrequest hflight).snoc _
  · intro flight sent depth hflight
    rw [hafter] at hflight
    -- the polled request is not on its way
    have hother : i ≠ flight := fun heq => hdone sent depth (heq ▸ hflight)
    rw [houtputs, judgements_none, polls_append, polls, polls, if_neg fun hboth => hother hboth.1]
    exact h.polled flight sent depth hflight

end Flies

/-- **Every interleaving.** Whatever arrives and whichever request is polled when, every request is where its
judgements put it. -/
theorem serve_flies (layers : List (RateLimitLayer T W B R)) (world : W) (turns : List (Turn T B)) :
    Flies layers world turns := by
  induction turns using List.reverseRecOn with
  | nil =>
    exact ⟨rfl, fun _ _ hmem => absurd hmem List.not_mem_nil, fun _ _ _ hrequest => (nomatch hrequest),
      fun _ _ _ _ => rfl⟩
  | append_singleton turns turn ih =>
    cases turn with
    | arrive request => exact ih.arrive request
    | poll i t =>
      by_cases hpending : ∃ sent depth, (Server.after layers world turns).flights[i]? = some (.pending sent depth)
      · obtain ⟨sent, depth, hpending⟩ := hpending
        exact ih.poll i t hpending
      · exact ih.idle i t fun sent depth hflight => hpending ⟨sent, depth, hflight⟩

/-- The same identifier, scope and fingerprint. -/
def SameIdentity {P Q : Type} [RateLimitPolicy P] [RateLimitPolicy Q] (policy : P) (other : Q) : Prop :=
  RateLimitPolicy.id policy = RateLimitPolicy.id other ∧ RateLimitPolicy.scope policy = RateLimitPolicy.scope other ∧
    RateLimitPolicy.fingerprint policy = RateLimitPolicy.fingerprint other

/-- A record is for the policies of the identity of its own. -/
theorem Admission.isFor_new {P Q : Type} [RateLimitPolicy P] [RateLimitPolicy Q] {policy : P} {other : Q}
    {decision : Admitted} :
    Admission.isFor policy (Admission.new other decision) = true ↔ SameIdentity other policy := by
  unfold Admission.isFor Admission.new SameIdentity
  rw [decide_eq_true_iff]

/-- The record of a layer holds its own policy and decision. -/
theorem recorded_getElem? {decisions : List Admitted} {k : ℕ} {layer : RateLimitLayer T W B R} {decision : Admitted}
    (hlayer : layers[k]? = some layer) (hdecision : decisions[k]? = some decision) :
    (recorded layers decisions)[k]? = some (Admission.new layer.policy decision) := by
  unfold recorded
  rw [List.getElem?_zipWith, hlayer, hdecision]

/-- A layer of the identity of a policy, with none outside it. -/
structure Outermost {P : Type} [RateLimitPolicy P] (layers : List (RateLimitLayer T W B R)) (policy : P) (j : ℕ)
    (layer : RateLimitLayer T W B R) : Prop where
  present : layers[j]? = some layer
  same : SameIdentity layer.policy policy
  outer : ∀ i other, i < j → layers[i]? = some other → ¬SameIdentity other.policy policy

section Lookup

variable {P : Type} [RateLimitPolicy P] {policy : P}

/-- Where some layer has the identity, one of them is the outermost. -/
theorem exists_outermost {k : ℕ} {layer : RateLimitLayer T W B R} (hlayer : layers[k]? = some layer)
    (hsame : SameIdentity layer.policy policy) : ∃ j other, Outermost layers policy j other := by
  classical
  have hexists : ∃ j, ∃ other : RateLimitLayer T W B R, layers[j]? = some other ∧ SameIdentity other.policy policy :=
    ⟨k, layer, hlayer, hsame⟩
  obtain ⟨other, hother, hidentity⟩ := Nat.find_spec hexists
  exact ⟨Nat.find hexists, other, hother, hidentity,
    fun i earlier hlt hearlier hsame => Nat.find_min hexists hlt ⟨earlier, hearlier, hsame⟩⟩

/-- The lookup finds the admission of the outermost layer. -/
theorem find?_recorded {decisions : List Admitted} {j : ℕ} {layer : RateLimitLayer T W B R} {decision : Admitted}
    (h : Outermost layers policy j layer) (hdecision : decisions[j]? = some decision) :
    (recorded layers decisions).find? (Admission.isFor policy) = some (Admission.new layer.policy decision) := by
  obtain ⟨hlt, hget⟩ := List.getElem?_eq_some_iff.1 (recorded_getElem? h.present hdecision)
  refine List.find?_eq_some_iff_getElem.2 ⟨Admission.isFor_new.2 h.same, j, hlt, hget, fun i hi => ?_⟩
  -- the records before it are those of layers with other identities
  have hlengths : i < layers.length ∧ i < decisions.length := by
    have hmin : (recorded layers decisions).length = min layers.length decisions.length := List.length_zipWith
    omega
  have hother := List.getElem?_eq_getElem hlengths.1
  have hrecord := recorded_getElem? hother (List.getElem?_eq_getElem hlengths.2)
  rw [(List.getElem?_eq_some_iff.1 hrecord).2, Bool.not_eq_true', ← Bool.not_eq_true, Admission.isFor_new]
  exact h.outer i _ hi hother

/-- A lookup in the extension of a request is one among its entries. -/
theorem get_of_find? {admission : Admission} (h : request.entries.find? (Admission.isFor policy) = some admission) :
    ∃ admissions, request.admissions = some admissions ∧ admissions.get policy = some admission := by
  unfold HttpRequest.entries at h
  cases hextension : request.admissions with
  | none =>
    rw [hextension] at h
    cases h
  | some admissions =>
    rw [hextension] at h
    exact ⟨admissions, rfl, h⟩

end Lookup

/-- **What the wrapped service sees.** In every interleaving a request that has reached the wrapped service is the one
that arrived, with one admission of every layer after those it came with, the outermost first; and for a policy that it
has not come with an admission for, such as that of any layer, the lookup gives what the outermost layer of the
policy's identity has decided. -/
theorem service_sees_admissions (layers : List (RateLimitLayer T W B R)) (world : W) (turns : List (Turn T B))
    (flight : ℕ) (request seen : HttpRequest B) (harrived : (arrivals turns)[flight]? = some request)
    (hreached : (Server.after layers world turns).flights[flight]? = some (.reached seen)) :
    ∃ decisions, decisions.length = layers.length ∧ Passed layers (Judged layers world turns flight) request decisions ∧
      judgements (Server.outputs layers world turns) flight = decisions.map .admitted ∧
      seen.content = request.content ∧ seen.entries = request.entries ++ recorded layers decisions ∧
      ∀ (P : Type) [RateLimitPolicy P] (policy : P) (k : ℕ) (layer : RateLimitLayer T W B R),
        layers[k]? = some layer → SameIdentity layer.policy policy →
        (∀ admission ∈ request.entries, Admission.isFor policy admission = false) →
        ∃ j other admitted admissions, Outermost layers policy j other ∧ decisions[j]? = some admitted ∧
          seen.admissions = some admissions ∧
          admissions.get policy = some (Admission.new other.policy admitted) := by
  have hflown := (serve_flies layers world turns).flown flight request _ harrived hreached
  generalize judgements (Server.outputs layers world turns) flight = js at hflown ⊢
  cases hflown with
  | reached decisions hpassed hall =>
    obtain ⟨hcontent, hentries⟩ := HttpRequest.recordAll_spec request (recorded layers decisions)
    refine ⟨decisions, hall, hpassed, rfl, hcontent, hentries, fun P _ policy k layer hlayer hsame hfresh => ?_⟩
    obtain ⟨j, other, houtermost⟩ := exists_outermost hlayer hsame
    have hj : j < decisions.length := hall ▸ (List.getElem?_eq_some_iff.1 houtermost.present).1
    have hdecision := List.getElem?_eq_getElem hj
    -- nothing that the request came with is in the way
    have hnone : request.entries.find? (Admission.isFor policy) = none := by
      rw [List.find?_eq_none]
      exact fun admission hmem => by rw [hfresh admission hmem]; exact Bool.false_ne_true
    have hfound : (handed layers request decisions).entries.find? (Admission.isFor policy) =
        some (Admission.new other.policy decisions[j]) := by
      unfold handed
      rw [hentries, List.find?_append, hnone, Option.none_or]
      exact find?_recorded houtermost hdecision
    obtain ⟨admissions, hadmissions, hget⟩ := get_of_find? hfound
    exact ⟨j, other, _, admissions, houtermost, hdecision, hadmissions, hget⟩

/-! ## Layers on a memory store -/

/-- A layer whose limiter is a memory store; the poll brings the reading of the clock. -/
def MemoryStore.layer [Sha2] {config : MemoryStoreConfig} {K : Type} (policy : FixedWindowPolicy)
    (extract : HttpRequest B → FixedWindowPolicy → Except K SubjectKey)
    (mapper : RateLimitRejection K PoisonedShardError → R) :
    RateLimitLayer Duration (BoundedShards config WindowEntry) B R where
  Policy := FixedWindowPolicy
  KeyError := K
  BackendError := PoisonedShardError
  check t check shards := MemoryStore.check (.ok t) check shards
  policy := policy
  extractSubjectKey := extract
  rejectionMapper := mapper

/-- A client gate, a search gate, and the client gate again in shadow mode, on one small store; the application shows
why it rejects. -/
def gates : letI := vectorSha2;
    List (RateLimitLayer Duration (BoundedShards pairConfig WindowEntry) SubjectKey RejectionKind) :=
  letI := vectorSha2
  let byContent : HttpRequest SubjectKey → FixedWindowPolicy → Except Empty SubjectKey :=
    fun request _ => .ok request.content
  [MemoryStore.layer loginPolicy byContent RateLimitRejection.kind,
    MemoryStore.layer searchPolicy byContent RateLimitRejection.kind,
    MemoryStore.layer (loginPolicy.withQuotaMode .shadow) byContent RateLimitRejection.kind]

/-- Two requests; the first passes all gates, and the second finds the store full. -/
def gateTurns : List (Turn Duration SubjectKey) :=
  [.arrive ⟨Digest.replicate 1, none⟩, .poll 0 (Duration.fromMillis 5), .arrive ⟨Digest.replicate 2, none⟩,
    .poll 0 (Duration.fromMillis 6), .poll 1 (Duration.fromMillis 6), .poll 0 (Duration.fromMillis 7),
    .poll 0 (Duration.fromMillis 8)]

/-- The request that the wrapped service has. -/
def Flight.seen : Flight B R → Option (HttpRequest B)
  | .reached request => some request
  | _ => none

theorem Flight.seen_eq_some {f : Flight B R} (h : f.seen = some request) : f = .reached request := by
  cases f with
  | reached seen => exact congrArg _ (Option.some.inj h)
  | pending _ _ => cases h
  | rejected _ => cases h
  | panicked => cases h

/-- The policy of the inner client gate is looked up, and the outer one's decision is found. -/
theorem service_sees_admissions_gates :
    letI := vectorSha2
    ∃ seen admitted admissions, (Server.after gates (BoundedShards.new pairConfig) gateTurns).flights[0]? =
        some (.reached seen) ∧
      seen.admissions = some admissions ∧ admissions.entries.length = 3 ∧
      (judgements (Server.outputs gates (BoundedShards.new pairConfig) gateTurns) 0)[0]? = some (.admitted admitted) ∧
      admissions.get (loginPolicy.withQuotaMode .shadow) = some (Admission.new loginPolicy admitted) := by
  let := vectorSha2
  have hsome : ((Server.after gates (BoundedShards.new pairConfig) gateTurns).flights[0]?.bind Flight.seen).isSome =
      true := by decide +kernel
  obtain ⟨seen, hseen⟩ := Option.isSome_iff_exists.1 hsome
  obtain ⟨f, hflight, hf⟩ := Option.bind_eq_some_iff.1 hseen
  rw [Flight.seen_eq_some hf] at hflight
  obtain ⟨decisions, hall, -, hjudgements, -, hentries, hlookup⟩ := service_sees_admissions gates
    (BoundedShards.new pairConfig) gateTurns 0 ⟨Digest.replicate 1, none⟩ seen rfl hflight
  obtain ⟨j, other, admitted, admissions, houtermost, hdecision, hadmissions, hget⟩ := hlookup _
    (loginPolicy.withQuotaMode .shadow) 2 _ rfl ⟨rfl, rfl, rfl⟩ (fun _ hmem => absurd hmem List.not_mem_nil)
  -- the outer client gate has the same identity
  obtain rfl : j = 0 := by
    by_contra hne
    exact houtermost.outer 0 _ (Nat.pos_of_ne_zero hne) rfl ⟨rfl, rfl, rfl⟩
  obtain rfl := Option.some.inj houtermost.present
  refine ⟨seen, admitted, admissions, hflight, hadmissions, ?_, ?_, hget⟩
  · rw [← HttpRequest.entries_of_some hadmissions, hentries]
    have hlength : (recorded gates decisions).length = min gates.length decisions.length := List.length_zipWith
    rw [HttpRequest.entries_of_none rfl, List.nil_append, hlength, hall, min_self]
    rfl
  · rw [hjudgements, List.getElem?_map, hdecision]
    rfl

end Runlimit.Axum
