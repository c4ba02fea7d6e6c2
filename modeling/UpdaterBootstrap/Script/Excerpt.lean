import UpdaterBootstrap.Script.ClassHeader
import UpdaterBootstrap.Script.Strip

/-!
# What is taken out of a script

The first annotation of each kind as it is written, the stripped text, and the unit to be read:
imports of both kinds, the annotations taken, and the bare declaration of the first class.
-/

namespace UpdaterBootstrap

structure UnitText where
  imports : List String
  annotations : List String
  body : String
  deriving DecidableEq, Repr

def UnitText.render (u : UnitText) : String :=
  String.join ((u.imports ++ u.annotations).map (· ++ "\n")) ++ u.body

structure Excerpt where
  bootstrapText : Option String
  updaterText : Option String
  strippedBody : String
  unit : UnitText
  deriving DecidableEq, Repr

def Excerpt.isAnnotated (e : Excerpt) : Bool :=
  e.bootstrapText.isSome || e.updaterText.isSome

def bareDeclaration (stripped : String) : String :=
  match findClassHeader stripped with
  | some header => header.text ++ " \x7b\x7d"
  | none => ""

def firstText? (kind : AnnotationKind) (os : List Occurrence) : Option String :=
  (os.find? fun o => AnnotationKind.ofName? o.name == some kind).map Occurrence.text

def extract (source : String) (keepLineCount : Bool) : Excerpt :=
  let os := findAnnotations source
  let bootstrapText := firstText? .bootstrap os
  let updaterText := firstText? .updater os
  let strippedBody := stripAnnotations source keepLineCount
  { bootstrapText, updaterText, strippedBody
    unit :=
      { imports := AnnotationKind.all.map AnnotationKind.importStatement
        annotations := bootstrapText.toList ++ updaterText.toList
        body := bareDeclaration strippedBody } }

end UpdaterBootstrap
