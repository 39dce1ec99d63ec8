import CostAudit.Report.Codec

/-!
# Warnings before a run

Some guarantees cannot be checked in the circumstances of a run. The
warnings say which; none of them stops the run. `Config.warnings` lists
those that apply.
-/

namespace CostAudit

/-- A warning given before a run. -/
inductive Warning where
  /-- The probe sees no allocations, so measured bytes mean nothing. -/
  | inactiveProbe (memSafeRequired : Bool)
  | uncoveredFlags (flags : String)
  /-- Times are taken on code that is not optimised. -/
  | unoptimised
  deriving DecidableEq, Inhabited

namespace Warning

/-- Whether the warning weakens a guarantee that was asked for. -/
def weakensGuarantee : Warning → Bool
  | inactiveProbe required => required
  | _ => false

def text : Warning → String
  | inactiveProbe required =>
    "memory probe is inactive (is CountingAllocator the global allocator?); " ++
      "measured allocations are not checked" ++
      (if required then ", MemSafe falls back to declared accounting only" else "")
  | uncoveredFlags flags => "no verification is performed for required flags: " ++ flags
  | unoptimised => "built without optimizations; timing growth analysis may be noisy"

def toJson : Warning → Json
  | inactiveProbe required =>
    .record [("ProbeInactive", .record [("mem_safe_required", .bool required)])]
  | uncoveredFlags flags => .record [("UncheckedFlags", .record [("flags", .text flags)])]
  | unoptimised => .text "DebugBuild"

def ofJson? (v : Json) : Option Warning := do
  match ← v.choice? with
  | ("ProbeInactive", some v) =>
    match ← v.fields? ["mem_safe_required"] with
    | [required] => required.bool?.map inactiveProbe
    | _ => none
  | ("UncheckedFlags", some v) =>
    match ← v.fields? ["flags"] with
    | [flags] => flags.text?.map uncoveredFlags
    | _ => none
  | ("DebugBuild", none) => some unoptimised
  | ("DebugBuild", some .null) => some unoptimised
  | _ => none

end Warning

def coveredFlags : FlagSet := .ofList [.memSafe, .cpuSafe]

/-- The warnings that apply to a run, given whether the probe is active.
Runs are always taken on code that is not optimised. -/
def Config.warnings (c : Config) (probeActive : Bool) : List Warning :=
  let unchecked := coveredFlags.missing c.required
  (if probeActive then [] else [.inactiveProbe (c.required.has .memSafe)]) ++
    (if unchecked.isEmpty then [] else [.uncoveredFlags unchecked.text]) ++
    (if c.required.has .cpuSafe then [.unoptimised] else [])

end CostAudit
