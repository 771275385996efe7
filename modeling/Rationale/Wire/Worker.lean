import Rationale.Kernel.Verdict
import Rationale.Wire.Settled

namespace Rationale.Wire

open Rationale.Library Rationale.Kernel

/-!
# The worker answers the host

`handle` of `ocaml/worker/main.ml`, over trees.  The tree that the host writes for a request is
evaluated as that request, and the host reads the answer back.

* `handle` — one message of the host to one message of the worker;
* `exists_evaluate` — the evaluator always returns a response, of version 1;
* `worker_speaks_host` — the two languages write and read the same trees.
-/

def failTree (message : String) : Json :=
  .assoc [("kind", .string "failure"), ("message", .string message)]

def exactFields (expected : List String) (fields : List (String × Json)) : Except String Unit :=
  if sortBy compare (fields.map Prod.fst) = sortBy compare expected then .ok ()
  else .error "worker message has invalid fields"

def messageField (name : String) (fields : List (String × Json)) : Except String Json :=
  match fields.lookup name with
  | some value => .ok value
  | none => .error ("worker message is missing " ++ name)

def messageInt : Json → Except String Int
  | .int value => .ok value
  | _ => .error "protocol_version must be an integer"

def messageString : Json → Except String String
  | .string value => .ok value
  | _ => .error "kind must be a string"

def ready : Json := .assoc [("kind", .string "ready"), ("protocol_version", .int 1)]

def resultTree (response : KernelResponse) : Json :=
  .assoc [("kind", .string "result"), ("response", kernelResponseToYojson response)]

/-- `none` is an exception of the evaluator, which ends the worker. -/
def handle : Json → Option Json
  | .assoc fields =>
    match messageField "kind" fields >>= messageString with
    | .error message => some (failTree message)
    | .ok kind =>
      if kind = "hello" then
        match exactFields ["kind", "protocol_version"] fields with
        | .error message => some (failTree message)
        | .ok () =>
          match messageField "protocol_version" fields >>= messageInt with
          | .ok version =>
            if version = 1 then some ready
            else some (failTree "unsupported worker protocol version")
          | .error message => some (failTree message)
      else if kind = "evaluate" then
        match exactFields ["kind", "request"] fields with
        | .error message => some (failTree message)
        | .ok () =>
          match messageField "request" fields with
          | .error message => some (failTree message)
          | .ok request =>
            match kernelRequestOfYojson request with
            | .error message => some (failTree message)
            | .ok request => (evaluate request).map resultTree
      else some (failTree "unknown worker message kind")
  | _ => some (failTree "worker message must be a JSON object")

/-! ### The evaluator is total -/

theorem exists_evaluate (request : KernelRequest) :
    ∃ response, evaluate request = some response ∧ responseVersion response = 1 := by
  cases hvalid : validate request with
  | error failure =>
    refine ⟨protocolError request failure, ?_, rfl⟩
    simp only [evaluate, hvalid]
  | ok nodes =>
    obtain ⟨hv, -⟩ := validate_eq_ok_iff.mp hvalid
    cases htraversal : traversalOf request with
    | error failure => exact ⟨_, evaluate_of_traversal_error hv htraversal, rfl⟩
    | ok traversal =>
      -- one of the three kinds of proof is drawn
      rw [evaluate_of_traversal hv htraversal]
      obtain ⟨-, hproof⟩ | ⟨-, -, hproof⟩ | ⟨-, -, _, _, -, -, -, hproof⟩ :=
        proofOf_cases hv (traversalOf_spec hv htraversal) (conflictsOf request traversal.reachable)
      all_goals
        rw [hproof]
        exact ⟨_, rfl, rfl⟩

/-! ### Both directions -/

/-- The tree of a request decodes to that request. -/
theorem kernelRequestOfYojson_serialize (request : KernelRequest) :
    kernelRequestOfYojson (serializeKernelRequest request) = .ok request :=
  (exact_kernelRequest _ request).mpr (sortKeys_serializeKernelRequest request)

/-- The envelope of a request is evaluated. -/
theorem handle_evaluate (request : KernelRequest) :
    handle (serializeHostMessage (.evaluate request)) = (evaluate request).map resultTree := by
  have hkind : messageField "kind" [("kind", .string "evaluate"),
      ("request", serializeKernelRequest request)] >>= messageString = .ok "evaluate" := rfl
  have hfields : exactFields ["kind", "request"] [("kind", .string "evaluate"),
      ("request", serializeKernelRequest request)] = .ok () := if_pos rfl
  have hrequest : messageField "request" [("kind", .string "evaluate"),
      ("request", serializeKernelRequest request)] = .ok (serializeKernelRequest request) := rfl
  simp only [serializeHostMessage, handle, hkind, hfields, hrequest,
    kernelRequestOfYojson_serialize]
  rw [if_neg (by decide), if_pos trivial]

/-- The envelope of the host's greeting is answered with readiness. -/
theorem handle_hello : handle (serializeHostMessage (.hello 1)) = some ready := by
  have hkind : messageField "kind" [("kind", .string "hello"), ("protocol_version", .int 1)] >>=
      messageString = .ok "hello" := rfl
  have hfields : exactFields ["kind", "protocol_version"] [("kind", .string "hello"),
      ("protocol_version", .int 1)] = .ok () := if_pos rfl
  have hversion : messageField "protocol_version" [("kind", .string "hello"),
      ("protocol_version", .int 1)] >>= messageInt = .ok 1 := rfl
  simp only [serializeHostMessage, handle, hkind, hfields, hversion]
  rw [if_pos trivial, if_pos trivial]

/-- A response whose version is in range is read back. -/
theorem deserializeKernelResponse_toYojson {response : KernelResponse}
    (h : InU16 (responseVersion response)) :
    deserializeKernelResponse (kernelResponseToYojson response) = some response := by
  have hsorted := sortKeys_kernelResponseToYojson response
  obtain ⟨hunique, hplain, -⟩ := settled_kernelResponse _ response hsorted
  rw [reads_kernelResponse hunique, hplain]
  exact ⟨hsorted, h⟩

/-- **The host and the kernel speak one format.** The worker evaluates the request that the host's
    tree stands for, the host reads what the worker's tree stands for, and sorted by key the trees of
    the two languages are the same. -/
theorem worker_speaks_host :
    (∀ request, ∃ response, evaluate request = some response ∧
      handle (serializeHostMessage (.evaluate request)) = some (resultTree response)) ∧
    (∀ request, kernelRequestOfYojson (serializeKernelRequest request) = .ok request) ∧
    (∀ request response, evaluate request = some response →
      deserializeKernelResponse (kernelResponseToYojson response) = some response) ∧
    (∀ request, toCanonicalJson serializeKernelRequest request = kernelRequestToYojson request) ∧
    ∀ response, toCanonicalJson serializeKernelResponse response =
      kernelResponseToYojson response := by
  refine ⟨fun request => ?_, kernelRequestOfYojson_serialize, fun request response h => ?_,
    sortKeys_serializeKernelRequest, sortKeys_serializeKernelResponse⟩
  · obtain ⟨response, hresponse, -⟩ := exists_evaluate request
    refine ⟨response, hresponse, ?_⟩
    rw [handle_evaluate, hresponse, Option.map_some]
  · obtain ⟨response', hresponse', hversion⟩ := exists_evaluate request
    obtain rfl : response' = response := Option.some.inj (hresponse'.symm.trans h)
    apply deserializeKernelResponse_toYojson
    rw [hversion]
    decide

end Rationale.Wire
