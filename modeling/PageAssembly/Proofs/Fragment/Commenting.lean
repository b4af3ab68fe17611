import PageAssembly.Proofs.Fragment.Splitting
import PageAssembly.Proofs.Language.Commenting
import PageAssembly.Proofs.Text.Encoding

/-!
Comments are invisible. Two bodies are interchangeable if they do the same wherever they stand and
define fragments of the same names that do; a text may be one node or two. So a source and the
source with a comment in it give fragments that can replace each other in every set.
-/

namespace PageAssembly

open PageAssembly.Fragment (split splitNode)
open PageAssembly.Language (Body Likeness Node NodesAlike Outside Span commented)

/-- The bodies do the same in every fragment, whatever the invocations in them do. -/
def SameMeaning (nodes others : Body) : Prop :=
  ∀ slots root invoke fragment,
    Execution.ofBody slots root invoke fragment nodes =
      Execution.ofBody slots root invoke fragment others

structure Fragment.Alike (fragment other : Fragment) : Prop where
  name : fragment.name = other.name
  body : SameMeaning fragment.body other.body

theorem Fragment.Alike.refl (fragment : Fragment) : fragment.Alike fragment :=
  ⟨rfl, fun _ _ _ _ => rfl⟩

theorem Fragment.names_eq {fragments others : List Fragment}
    (pairs : List.Forall₂ Fragment.Alike fragments others) :
    fragments.map Fragment.name = others.map Fragment.name := by
  induction pairs with
  | nil => rfl
  | cons pair _ induction => rw [List.map_cons, List.map_cons, pair.name, induction]

/-- The bodies do the same, and so do the fragments that they define, one after the other. -/
structure Interchangeable (nodes others : Body) : Prop where
  means : SameMeaning nodes others
  defines : List.Forall₂ Fragment.Alike (split nodes).2 (split others).2

namespace Interchangeable

theorem kept {nodes others : Body} (same : Interchangeable nodes others) :
    SameMeaning (split nodes).1 (split others).1 := by
  intro slots root invoke fragment
  funext dot
  rw [Execution.ofBody_split, Execution.ofBody_split, same.means]

theorem defined {nodes others : Body} (same : Interchangeable nodes others) (name : String) :
    List.Forall₂ Fragment.Alike ((split nodes).2 ++ [⟨name, (split nodes).1⟩])
      ((split others).2 ++ [⟨name, (split others).1⟩]) :=
  List.rel_append same.defines (.cons ⟨rfl, same.kept⟩ .nil)

theorem append {nodes others later more : Body} (same : Interchangeable nodes others)
    (behind : Interchangeable later more) : Interchangeable (nodes ++ later) (others ++ more) where
  means slots root invoke fragment := by
    funext dot
    rw [Execution.ofBody_append, Execution.ofBody_append, same.means, behind.means]
  defines := by
    rw [Fragment.split_append, Fragment.split_append]
    exact List.rel_append same.defines behind.defines

theorem of_node {node other : Node}
    (means : ∀ slots root invoke fragment dot,
      Execution.ofNode slots root invoke fragment node dot =
        Execution.ofNode slots root invoke fragment other dot)
    (defines : List.Forall₂ Fragment.Alike (splitNode node).2 (splitNode other).2) :
    Interchangeable [node] [other] where
  means slots root invoke fragment := by
    funext dot
    rw [Execution.ofBody_single, Execution.ofBody_single, means]
  defines := by
    simpa only [split, List.append_nil] using defines

theorem single {place : Nat → Nat → Prop} {node other : Node}
    (alike : NodesAlike place Interchangeable node other) : Interchangeable [node] [other] := by
  cases alike with
  | opening spans opening firsts seconds =>
      cases opening with
      | define name => exact of_node (fun _ _ _ _ _ => rfl) (firsts.defined name)
      | block name argument => exact of_node (fun _ _ _ _ _ => rfl) (firsts.defined name)
      | control kind path =>
          apply of_node
          · intro slots root invoke fragment dot
            have inBody := firsts.means slots root invoke fragment
            have inOtherwise := seconds.means slots root invoke fragment
            cases kind <;>
              simp only [Language.Opening.node, Execution.ofNode, inBody, inOtherwise]
          · exact List.rel_append firsts.defines seconds.defines
  | _ => exact of_node (fun _ _ _ _ _ => rfl) .nil

theorem parted (span first second : Span) (left right : String) :
    Interchangeable [.text span (left ++ right)] [.text first left, .text second right] where
  means slots root invoke fragment := by
    funext dot
    simp only [Execution.ofBody, Execution.ofNode, Output.andThen_write,
      Text.encodeString_append]
    rfl
  defines := .nil

end Interchangeable

/-- Readings are compared by what they are good for. -/
def useLikeness : Likeness where
  place _ _ := True
  body := Interchangeable
  empty := ⟨fun _ _ _ _ => rfl, .nil⟩
  extended same alike := same.append (.single alike)

/-- Each name has fragments in both sets that do the same, or in none. -/
def FragmentSet.Alike (set other : FragmentSet) : Prop :=
  ∀ name, Option.Rel Fragment.Alike (set.find? name) (other.find? name)

namespace FragmentSet

theorem Alike.refl (set : FragmentSet) : set.Alike set := by
  intro name
  cases set.find? name with
  | none => exact .none
  | some fragment => exact .some (.refl fragment)

theorem Alike.insert {set other : FragmentSet} (alike : set.Alike other)
    {fragment also : Fragment} (fragments : fragment.Alike also) :
    (set.insert fragment).Alike (other.insert also) := by
  intro name
  rw [find?_insert, find?_insert, fragments.name]
  split
  · exact .some fragments
  · exact alike name

theorem Alike.insertAll {set other : FragmentSet} (alike : set.Alike other)
    {fragments others : List Fragment} (pairs : List.Forall₂ Fragment.Alike fragments others) :
    (set.insertAll fragments).Alike (other.insertAll others) := by
  induction pairs generalizing set other with
  | nil => exact alike
  | cons pair _ induction => exact induction (alike.insert pair)

end FragmentSet

theorem Execution.ofInvocation_alike {set other : FragmentSet} (alike : set.Alike other)
    (slots : Slots) (root : Json) (depth : Nat) :
    ofInvocation set slots root depth = ofInvocation other slots root depth := by
  induction depth with
  | zero => rfl
  | succ depth induction =>
      funext name dot
      have fragments := alike name
      simp only [ofInvocation, induction]
      generalize set.find? name = one at fragments
      generalize other.find? name = also at fragments
      cases fragments with
      | none => rfl
      | some pair =>
          obtain ⟨name, body⟩ := pair
          simp only [name, body slots root (ofInvocation other slots root depth)]

theorem SourceFile.alike_ofBody (name : String) {body other : Body}
    (same : Interchangeable body other) :
    List.Forall₂ Fragment.Alike (ofBody name body).fragments (ofBody name other).fragments :=
  .cons ⟨rfl, same.kept⟩ same.defines

/-- A comment that is put into a source outside of its actions and comments and not behind an
opening brace changes neither the fragments' names nor what any execution over them writes and how
it ends. -/
theorem comments_invisible {name source : String} {file : SourceFile}
    (parsed : SourceFile.parse name source = .ok file) {before after comment : List Char}
    (parted : source.toList = before ++ after)
    (outside : Outside source.toList (Text.byteSize before))
    (closed : before.getLast? ≠ some '\x7b') (unclosed : ¬ Language.commentClosing <:+: comment) :
    ∃ other, SourceFile.parse name (commented before comment after) = .ok other ∧
      other.fragments.map Fragment.name = file.fragments.map Fragment.name ∧
      ∀ (set : FragmentSet) (later : List Fragment) (main : String) (data : Json) (slots : Slots),
        execute ((set.merge other).insertAll later) main data slots =
          execute ((set.merge file).insertAll later) main data slots := by
  cases read : Language.parse source with
  | error error =>
      rw [SourceFile.parse, read] at parsed
      cases parsed
  | ok body =>
      rw [SourceFile.parse, read] at parsed
      obtain rfl := Except.ok.inj parsed
      have anywhere : ∀ position also, useLikeness.place position also := fun _ _ => trivial
      have parts : ∀ {nodes others : Body} (span first second : Span) (left right : String),
          useLikeness.body nodes others → useLikeness.body (nodes ++ [.text span (left ++ right)])
            (others ++ [.text first left, .text second right]) :=
        fun span first second left right same =>
          Interchangeable.append same (.parted span first second left right)
      obtain ⟨also, parsed, same⟩ :=
        Language.exists_commented anywhere parts read parted outside closed unclosed
      have fragments := SourceFile.alike_ofBody name same
      refine ⟨SourceFile.ofBody name also, ?_, ?_, fun set later main data slots => ?_⟩
      · rw [SourceFile.parse, parsed]
      · exact (Fragment.names_eq fragments).symm
      · have merged := (FragmentSet.Alike.refl set).insertAll fragments
        have unchanged := List.forall₂_same.mpr fun fragment (_ : fragment ∈ later) =>
          Fragment.Alike.refl fragment
        have alike := merged.insertAll unchanged
        have invocations := Execution.ofInvocation_alike alike slots data maxDepth
        unfold execute FragmentSet.merge
        rw [invocations]

def definingSource : String := "\x7b\x7b define \"b\" \x7d\x7dxy\x7b\x7b end \x7d\x7d"

def definingFile : SourceFile := ⟨⟨"page", []⟩, [⟨"b", [.text ⟨16, 18⟩ "xy"]⟩]⟩

def definingPiece : Language.Piece := .action " define \"b\" ".toList

def endPiece : Language.Piece := .action " end ".toList

/-- A quotation mark and what would end the definition. -/
def quotingComment : List Char := " \"\x7b\x7b end \x7d\x7d ".toList

theorem definingSource_readable :
    Language.Readable ([definingPiece] ++ .text "xy" :: [endPiece]) := by
  have defineValid : definingPiece.Valid :=
    ⟨by decide +kernel, by decide +kernel, [⟨.keyword .define, ⟨1, 7⟩⟩, ⟨.quoted "b", ⟨8, 11⟩⟩],
      by decide +kernel⟩
  have endValid : endPiece.Valid :=
    ⟨by decide +kernel, by decide +kernel, [⟨.keyword .finish, ⟨1, 4⟩⟩], by decide +kernel⟩
  have textValid : (Language.Piece.text "xy").Valid := ⟨by decide, by decide⟩
  refine Language.readable_cons defineValid rfl
    ⟨textValid, ?_, Language.readable_cons endValid rfl trivial⟩
  rintro content ⟨rfl⟩
  constructor
  · rintro next ⟨rfl⟩
    rfl
  · intro isOpen
    unfold Language.EndsOpen at isOpen
    exact absurd isOpen (by decide +kernel)

theorem definingSource_comment_invisible :
    SourceFile.parse "page" definingSource = .ok definingFile ∧
    ∃ other, SourceFile.parse "page" (commented (definingPiece.written ++ ['x']) quotingComment
        ('y' :: endPiece.written)) = .ok other ∧
      other.fragments.map Fragment.name = definingFile.fragments.map Fragment.name ∧
      ∀ (set : FragmentSet) (later : List Fragment) (main : String) (data : Json) (slots : Slots),
        execute ((set.merge other).insertAll later) main data slots =
          execute ((set.merge definingFile).insertAll later) main data slots := by
  have scanned : Language.scan definingSource =
      .ok [⟨.openAction, ⟨0, 2⟩⟩, ⟨.keyword .define, ⟨3, 9⟩⟩, ⟨.quoted "b", ⟨10, 13⟩⟩,
        ⟨.closeAction, ⟨14, 16⟩⟩, ⟨.text "xy", ⟨16, 18⟩⟩, ⟨.openAction, ⟨18, 20⟩⟩,
        ⟨.keyword .finish, ⟨21, 24⟩⟩, ⟨.closeAction, ⟨25, 27⟩⟩] := by decide +kernel
  have parsed : SourceFile.parse "page" definingSource = .ok definingFile := by
    rw [SourceFile.parse, Language.parse, scanned]
    rfl
  have halves : "xy".toList = ['x'] ++ ['y'] := by decide
  have outside := Language.outside_text definingSource_readable halves
  refine ⟨parsed, comments_invisible parsed ?_ ?_ ?_ ?_⟩
  · decide +kernel
  · exact outside
  · decide +kernel
  · decide +kernel

end PageAssembly
