/-
Rendering type expressions.

Without function types, the texts that are no syntax errors are the printings of trees, and what becomes of
a printing depends on the names of types in it alone.
-/
import ApiDoc.Proofs.TypeExpr.Completeness
import ApiDoc.Proofs.TypeExpr.Soundness
import ApiDoc.TypeExpr.Known

namespace ApiDoc

open TypeSyntax

namespace KnownTypes

theorem error?_of_printed (k : KnownTypes) (u : Alternatives) {text : String}
    (h : Printed u.tokens text.toList) :
    k.error? text =
      ((namesOfTokens u.tokens).find? fun name => !k.isKnown name).map .unknownName := by
  rw [error?, parse?_of_printed u h, ← u.names_expr]

theorem render_eq (k : KnownTypes) (text : String) :
    k.render text =
      match k.error? text with
      | some e => .error e
      | none => .ok (escape text) := rfl

theorem render_of_all_known (k : KnownTypes) (u : Alternatives) {text : String}
    (h : Printed u.tokens text.toList)
    (hknown : ∀ name ∈ namesOfTokens u.tokens, k.isKnown name = true) :
    k.render text = .ok (escape text) := by
  have hfind : (namesOfTokens u.tokens).find? (fun name => !k.isKnown name) = none :=
    List.find?_eq_none.2 fun name hname => by simp [hknown name hname]
  rw [render_eq, k.error?_of_printed u h, hfind]
  rfl

theorem render_of_unknown (k : KnownTypes) (u : Alternatives) {text : String}
    (h : Printed u.tokens text.toList) {before after : List String} {name : String}
    (hnames : namesOfTokens u.tokens = before ++ name :: after)
    (hbefore : ∀ n ∈ before, k.isKnown n = true) (hname : k.isKnown name = false) :
    k.render text = .error (.unknownName name) := by
  have hfind : (namesOfTokens u.tokens).find? (fun name => !k.isKnown name) = some name := by
    rw [hnames, List.find?_append, List.find?_eq_none.2 fun n hn => by simp [hbefore n hn],
      Option.none_or, List.find?_cons_of_pos (by simp [hname])]
  rw [render_eq, k.error?_of_printed u h, hfind]
  rfl

theorem malformed_of_parse?_eq_none (k : KnownTypes) {text : String}
    (h : TypeExpr.parse? text = none) : k.render text = .error .malformed := by
  rw [render_eq, error?, h]

/-- The tree of `Array.<'a\'b'>[]/?Foo...`. -/
def quotedTree : Alternatives :=
  .more
    (.mk .absent .absent
      (.named (.ofWord "Array".toList (by decide) rfl rfl)
        (.listed .dotted (.one (.one (.mk .absent .absent
          (.literal ⟨"'a\\'b'".toList, .inl ⟨'\'', "a\\'b".toList, .inr rfl,
            .plain (by decide) (by decide) (.escaped (.plain (by decide) (by decide) .nil)), rfl⟩⟩)
          0)))))
      1)
    .slash (.one (.mk .after .nullable
      (.named (.ofWord "Foo".toList (by decide) rfl rfl) .absent) 0))

theorem printed_quotedTree :
    Printed quotedTree.tokens " Array.< 'a\\'b' >[] /?Foo ... ".toList := by
  have htokens : ∃ a l f, quotedTree.tokens =
      [.typeName a, .sign .dottedAngle, .literal l, .sign .rightAngle, .sign .brackets,
        .sign .slash, .sign .question, .typeName f, .sign .dots] ∧
      a.text = "Array".toList ∧ l.text = "'a\\'b'".toList ∧ f.text = "Foo".toList :=
    ⟨_, _, _, rfl, rfl, rfl, rfl⟩
  obtain ⟨a, l, f, htokens, ha, hl, hf⟩ := htokens
  rw [htokens]
  refine ⟨[' '], ?_, rfl⟩
  simp only [lexed_cons_iff, Token.text, ha, hl, hf]
  exact ⟨_, rfl, _, rfl, _, rfl, _, rfl, _, rfl, _, rfl, _, rfl, _, rfl, _, rfl, .nil _⟩

end KnownTypes
end ApiDoc
