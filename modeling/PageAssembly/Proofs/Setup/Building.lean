import PageAssembly.Page.Engine

/-!
Setting up a site call by call. Whether its pages are to be cached plays no part in it: the same
calls succeed, and what they make differs in nothing else.
-/

namespace PageAssembly

/-- One call on a site that is being set up. Plugins come with the ids that they are given. -/
inductive SetupStep where
  | mount (name : String) (store : Store)
  | everyPageCss (names : List String)
  | everyPageJs (names : List String)
  | everyPageSources (names : List String)
  | everyPageHooks (hooks : List Hook)
  | everyPageEnvironment (functions : List EnvironmentFunction)
  | plugins (plugins : List (String × Plugin))

namespace Setup

def step (setup : Setup) : SetupStep → Except SetupError Setup
  | .mount name store => .ok (setup.mount name store)
  | .everyPageCss names => setup.everyPageCss names
  | .everyPageJs names => setup.everyPageJs names
  | .everyPageSources names => setup.everyPageSources names
  | .everyPageHooks hooks => .ok (setup.everyPageHooks hooks)
  | .everyPageEnvironment functions => .ok (setup.everyPageEnvironment functions)
  | .plugins plugins => setup.plugins plugins

def build (setup : Setup) : List SetupStep → Except SetupError Setup
  | [] => .ok setup
  | call :: calls =>
      match setup.step call with
      | .ok setup => setup.build calls
      | .error error => .error error

theorem build_cons {setup built : Setup} {call : SetupStep} {calls : List SetupStep}
    (succeeded : setup.build (call :: calls) = .ok built) :
    ∃ next, setup.step call = .ok next ∧ next.build calls = .ok built := by
  rw [build] at succeeded
  split at succeeded
  · rename_i next stepped
    exact ⟨next, stepped, succeeded⟩
  · cases succeeded

def withCache (setup : Setup) (enabled : Bool) : Setup :=
  { setup with settings := { setup.settings with cache := enabled } }

theorem map_bind {ε α β γ : Type} (read : Except ε α) (make : α → β) (change : β → γ) :
    (read >>= fun found => .ok (make found)).map change =
      read >>= fun found => .ok (change (make found)) := by
  cases read <;> rfl

theorem install_withCache (setup : Setup) (checked : List CheckedPlugin) (enabled : Bool) :
    (checked.foldl install setup).withCache enabled =
      checked.foldl install (setup.withCache enabled) := by
  induction checked generalizing setup with
  | nil => rfl
  | cons plugin checked induction =>
      rw [List.foldl_cons, List.foldl_cons, induction]
      rfl

theorem step_withCache (setup : Setup) (call : SetupStep) (enabled : Bool) :
    (setup.withCache enabled).step call =
      (setup.step call).map fun setup => setup.withCache enabled := by
  cases call with
  | mount name store => rfl
  | everyPageCss names =>
      simp only [step, everyPageCss, map_bind]
      rfl
  | everyPageJs names =>
      simp only [step, everyPageJs, map_bind]
      rfl
  | everyPageSources names =>
      simp only [step, everyPageSources, map_bind]
      rfl
  | everyPageHooks hooks => rfl
  | everyPageEnvironment functions => rfl
  | plugins plugins =>
      simp only [step, Setup.plugins, map_bind, install_withCache]
      rfl

theorem build_withCache (setup : Setup) (calls : List SetupStep) (enabled : Bool) :
    (setup.withCache enabled).build calls =
      (setup.build calls).map fun setup => setup.withCache enabled := by
  induction calls generalizing setup with
  | nil => rfl
  | cons call calls induction =>
      rw [build, build, step_withCache]
      cases setup.step call with
      | error error => rfl
      | ok setup => exact induction setup

end Setup

end PageAssembly
