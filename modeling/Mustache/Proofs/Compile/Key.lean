import Mustache.Proofs.Compile.Correct
import Mustache.Proofs.Token.DelimiterTag

/-! # Keys of section bodies

What the key of a section's body is the digest of tells the raw body and the delimiters: the delimiter
tag before the first line break, and the raw body after it.
-/
namespace Mustache

/-- The key's payload tells the raw text and the delimiters. -/
theorem sectionPayload_inj {raw raw' : String} {d d' : Delimiters} (hwf : d.WellFormed)
    (hwf' : d'.WellFormed) (h : sectionPayload raw d.tag = sectionPayload raw' d'.tag) :
    raw = raw' ∧ d = d' := by
  have hlist := congrArg String.toList h
  have hform : ∀ (s : String) (e : Delimiters), (sectionPayload s e.tag).toList =
      (e.tag.getD "").toList ++ '\n' :: s.toList := by
    intro s e
    rw [sectionPayload, String.toList_append, String.toList_append]
    simp
  rw [hform, hform] at hlist
  have hno : ∀ e : Delimiters, e.WellFormed → ∀ c ∈ (e.tag.getD "").toList, ¬ c = '\n' := by
    intro e he c hc hnl
    rw [hnl] at hc
    exact Delimiters.newline_not_mem_tag he hc
  obtain ⟨htag, hraw⟩ := Text.append_cons_inj_of_first (p := (· = '\n')) hlist rfl rfl
    (hno d hwf) (hno d' hwf')
  exact ⟨String.toList_inj.mp hraw, Delimiters.tag_inj hwf hwf' (String.toList_inj.mp htag)⟩

def Node.bodyPayload (source : List Char) (start stop : Int) (delimiters : Delimiters) : String :=
  sectionPayload (String.ofList (Text.slice source start stop)) delimiters.tag

/-- The digests of different bodies differ. -/
def DigestsApart (source : List Char) (tree : List Node) : Prop :=
  ∀ name start stop delimiters children name' start' stop' delimiters' children',
    Node.sectionBlock name start stop delimiters children ∈ Node.subnodes tree →
    Node.sectionBlock name' start' stop' delimiters' children' ∈ Node.subnodes tree →
    Digest.Md5.hex (Node.bodyPayload source start stop delimiters) =
      Digest.Md5.hex (Node.bodyPayload source start' stop' delimiters') →
    Node.bodyPayload source start stop delimiters = Node.bodyPayload source start' stop' delimiters'

end Mustache
