import ComponentBundle.Text.Blank
import ComponentBundle.Text.Search

/-!
The text of a bundle: external imports, a declaration for every module, and the
export of the entry.
-/
namespace ComponentBundle.Bundle
open ComponentBundle.Text

structure ModuleDeclaration where
  identifier : Text
  relative : Text
  /-- The statements before the exported value. -/
  prelude : Text
  /-- The exported value; it is the identifier if the prelude declares it already. -/
  body : Text
  /-- The source after the exported value. -/
  epilogue : Text
  deriving Repr, DecidableEq

structure Artifact where
  externals : List Text
  declarations : List ModuleDeclaration
  exported : Text
  deriving Repr, DecidableEq

def newline : Text := ['\n']

def constWord : Text := "const "

def equalsSign : Text := " = "

def exportDefaultWords : Text := "export default "

def semicolonLine : Text := [';', '\n']

def ownLines (part : Text) : Text := if part.isEmpty then [] else part ++ newline

def ModuleDeclaration.render (d : ModuleDeclaration) : Text :=
  let binding :=
    if d.body = d.identifier then []
    else constWord ++ (d.identifier ++ (equalsSign ++ (d.body ++ semicolonLine)))
  ownLines d.prelude ++ (binding ++ (ownLines d.epilogue ++ newline))

def Artifact.render (artifact : Artifact) : Text :=
  let imports :=
    if artifact.externals.isEmpty then []
    else join newline artifact.externals ++ (newline ++ newline)
  imports ++ (artifact.declarations.flatMap ModuleDeclaration.render
    ++ (exportDefaultWords ++ (artifact.exported ++ semicolonLine)))

end ComponentBundle.Bundle
