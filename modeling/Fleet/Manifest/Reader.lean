/-
Applications, services, dependencies and compose files read from YAML.

Every field may be left out. The names of the fields are those of the files; the types are those of the
library.
-/
import Fleet.Application
import Fleet.ComposeFile
import Fleet.Service
import Fleet.Yaml.Decode

namespace Fleet.Manifest

open Yaml Yaml.Decoder

def texts : Decoder (List String) := list text

def environment : Decoder Variables := map text

def databaseVariables : Decoder DatabaseVariables :=
  record ["db-name", "username", "password"] fun f => do
    pure {
      dbName := ← f.get "db-name" (optional text) none
      username := ← f.get "username" (optional text) none
      password := ← f.get "password" (optional text) none }

def database : Decoder DatabaseSettings :=
  record ["allocated-storage", "instance-class", "storage-type", "db-name", "username",
      "password-secret-name", "service-env-var-names"] fun f => do
    pure {
      allocatedStorage := ← f.get "allocated-storage" (optional text) none
      instanceClass := ← f.get "instance-class" (optional text) none
      storageType := ← f.get "storage-type" (optional text) none
      dbName := ← f.get "db-name" (optional text) none
      username := ← f.get "username" (optional text) none
      passwordSecret := ← f.get "password-secret-name" (optional text) none
      consumerNames := ← f.get "service-env-var-names" databaseVariables {} }

def dependencySettings : Decoder DependencySettings :=
  record ["ports", "persist", "dependency-environment", "service-environment", "rds"] fun f => do
    pure {
      ports := ← f.get "ports" texts []
      persist := ← f.get "persist" texts []
      containerEnv := ← f.get "dependency-environment" environment .empty
      consumerEnv := ← f.get "service-environment" environment .empty
      database := ← f.get "rds" (optional database) none }

def dependency : Decoder Descriptor :=
  record ["name", "version", "config"] fun f => do
    pure {
      name := ← f.get "name" text ""
      version := ← f.get "version" text ""
      settings := ← f.get "config" dependencySettings {} }

def dependencies : Decoder (List Descriptor) := list dependency

/-! ## Applications -/

def messageNames : Decoder MessageNames :=
  record ["public", "internal"] fun f => do
    pure {
      publicName := ← f.get "public" text ""
      internalName := ← f.get "internal" text "" }

def source : Decoder Source :=
  record ["location", "docker-image", "message-translations"] fun f => do
    pure {
      location := ← f.get "location" (optional text) none
      image := ← f.get "docker-image" (optional text) none
      messageNames := ← f.get "message-translations" (list messageNames) [] }

def site : Decoder CloudSite :=
  record ["dependencies", "url", "account-id", "region", "ssl-certificate-arn"] fun f => do
    pure {
      dependencies := ← f.get "dependencies" dependencies []
      url := ← f.get "url" text ""
      accountId := ← f.get "account-id" text ""
      region := ← f.get "region" text ""
      certificate := ← f.get "ssl-certificate-arn" text "" }

def localDependencies : Decoder (List Descriptor) :=
  record ["dependencies"] fun f => f.get "dependencies" dependencies []

def application : Decoder Application :=
  record ["name", "version", "description", "services", "local", "remote"] fun f => do
    pure {
      name := ← f.get "name" text ""
      version := ← f.get "version" text ""
      description := ← f.get "description" text ""
      services := ← f.get "services" (map source) .empty
      localDependencies := ← f.get "local" localDependencies []
      site := ← f.get "remote" site {} }

/-! ## Services -/

def startup : Decoder Startup :=
  record ["command", "online-text"] fun f => do
    pure {
      command := ← f.get "command" (optional text) none
      onlineText := ← f.get "online-text" (optional text) none }

def messages : Decoder Messages :=
  record ["sends", "receives"] fun f => do
    pure {
      sends := ← f.get "sends" texts []
      receives := ← f.get "receives" texts [] }

def scripts : Decoder Scripts :=
  record ["run", "test"] fun f => do
    pure {
      run := ← f.get "run" (optional text) none
      test := ← f.get "test" (optional text) none }

def port : Decoder (Option Port) := optional (below 65536)

def development : Decoder (Option Port × Scripts) :=
  record ["port", "scripts"] fun f => do
    pure (← f.get "port" port none, ← f.get "scripts" scripts {})

def production : Decoder (Option Port) :=
  record ["port"] fun f => f.get "port" port none

def tieredVariables : Decoder TieredVariables :=
  record ["default", "development", "test", "production"] fun f => do
    pure {
      base := ← f.get "default" environment .empty
      development := ← f.get "development" environment .empty
      test := ← f.get "test" environment .empty
      production := ← f.get "production" environment .empty }

def localNeeds : Decoder LocalNeeds :=
  record ["dependencies", "environment", "secrets", "ports"] fun f => do
    pure {
      dependencies := ← f.get "dependencies" dependencies []
      environment := ← f.get "environment" tieredVariables {}
      secrets := ← f.get "secrets" texts []
      ports := ← f.get "ports" texts [] }

def cloudNeeds : Decoder CloudNeeds :=
  record ["dependencies", "environment", "secrets", "url", "cpu", "memory", "health-check"]
    fun f => do
      pure {
        dependencies := ← f.get "dependencies" dependencies []
        environment := ← f.get "environment" environment .empty
        secrets := ← f.get "secrets" texts []
        url := ← f.get "url" (optional text) none
        cpu := ← f.get "cpu" (optional text) none
        memory := ← f.get "memory" (optional text) none
        healthCheck := ← f.get "health-check" (optional text) none }

def reach : Decoder Reach := choice [("public", .everyone), ("worker", .worker)]

def service : Decoder Service :=
  record ["type", "description", "startup", "messages", "development", "production", "local",
      "remote"] fun f => do
    let (developmentPort, scripts) ← f.get "development" development (none, {})
    pure {
      reach := ← f.get "type" reach .worker
      description := ← f.get "description" text ""
      startup := ← f.get "startup" startup {}
      messages := ← f.get "messages" messages {}
      developmentPort, scripts
      productionPort := ← f.get "production" production none
      onMachine := ← f.get "local" localNeeds {}
      inCloud := ← f.get "remote" cloudNeeds {} }

/-! ## Compose files -/

def build : Decoder Build :=
  record ["context", "dockerfile"] fun f => do
    pure {
      context := ← f.require "context" text
      dockerfile := ← f.require "dockerfile" text }

def container : Decoder Container :=
  record ["build", "image", "container_name", "command", "ports", "volumes", "links",
      "environment", "depends_on", "restart"] fun f => do
    pure {
      build := ← f.get "build" (optional build) none
      image := ← f.get "image" (optional text) none
      name := ← f.get "container_name" (optional text) none
      command := ← f.get "command" (optional text) none
      ports := ← f.get "ports" texts []
      volumes := ← f.get "volumes" texts []
      links := ← f.get "links" texts []
      environment := ← f.get "environment" environment .empty
      dependsOn := ← f.get "depends_on" texts []
      restart := ← f.get "restart" (optional text) none }

end Fleet.Manifest
