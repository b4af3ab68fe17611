import PageAssembly.Language.Node

/-!
A fragment is a named body. It invokes other fragments by name; a body can also hold definitions,
which are split out into fragments of their own.
-/

namespace PageAssembly

open PageAssembly.Language (Body Node)

structure Fragment where
  name : String
  body : Body

namespace Fragment

mutual

def invocationsOfNode : Node → List String
  | .text _ _ => []
  | .output _ _ => []
  | .slot _ _ => []
  | .invoke _ name _ => [name]
  | .control _ _ _ body otherwise => invocationsOf body ++ invocationsOf otherwise
  | .define _ _ body => invocationsOf body
  | .block _ name _ body => name :: invocationsOf body

def invocationsOf : Body → List String
  | [] => []
  | node :: nodes => invocationsOfNode node ++ invocationsOf nodes

end

def invocations (fragment : Fragment) : List String :=
  invocationsOf fragment.body

mutual

/-- What a node leaves in its body and the fragments that it defines, inner ones first. A definition
leaves nothing, a block leaves its invocation. -/
def splitNode : Node → Body × List Fragment
  | .text span content => ([.text span content], [])
  | .output span path => ([.output span path], [])
  | .slot span name => ([.slot span name], [])
  | .invoke span name argument => ([.invoke span name argument], [])
  | .control span kind path body otherwise =>
      let (body, inBody) := split body
      let (otherwise, inOtherwise) := split otherwise
      ([.control span kind path body otherwise], inBody ++ inOtherwise)
  | .define _ name body =>
      let (body, inner) := split body
      ([], inner ++ [⟨name, body⟩])
  | .block span name argument body =>
      let (body, inner) := split body
      ([.invoke span name argument], inner ++ [⟨name, body⟩])

def split : Body → Body × List Fragment
  | [] => ([], [])
  | node :: nodes =>
      let (kept, defined) := splitNode node
      let (later, definedLater) := split nodes
      (kept ++ later, defined ++ definedLater)

end

end Fragment

end PageAssembly
