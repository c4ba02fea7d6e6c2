/-!
# The two kinds of annotation

A script is described by a bootstrap annotation, which says how its document is deployed, and an
updater annotation, which says what the document holds.
-/

namespace UpdaterBootstrap

inductive AnnotationKind
  | bootstrap
  | updater
  deriving DecidableEq, Repr

namespace AnnotationKind

def all : List AnnotationKind :=
  [bootstrap, updater]

def simpleName : AnnotationKind → String
  | bootstrap => "Bootstrap"
  | updater => "Updater"

def qualifiedName : AnnotationKind → String
  | bootstrap => "nl.openweb.hippo.groovy.annotations.Bootstrap"
  | updater => "nl.openweb.hippo.groovy.annotations.Updater"

def ofName? (name : String) : Option AnnotationKind :=
  all.find? fun k => k.simpleName == name || k.qualifiedName == name

def ofQualifiedName? (name : String) : Option AnnotationKind :=
  all.find? fun k => k.qualifiedName == name

def importStatement (k : AnnotationKind) : String :=
  "import " ++ k.qualifiedName ++ ";"

end AnnotationKind

end UpdaterBootstrap
